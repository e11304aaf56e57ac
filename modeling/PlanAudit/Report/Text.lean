import PlanAudit.Report.Finding

/-!
# The report as a table

## Main definitions

* `textReport`: one line for each checker that applied, with its findings below
-/

namespace PlanAudit

open Text

/-- The string filled up with blanks to a width. -/
def padded (width : Nat) (s : String) : String :=
  s ++ String.ofList (List.replicate (width - s.toList.length) ' ')

/-- The number of findings in words. -/
def findingCount (n : Nat) : String :=
  if n = 0 then "pass" else toString n ++ " finding" ++ if n = 1 then "" else "s"

/-- The lines of a checker that applied. -/
def runLines (r : Run) : List String :=
  let mark := if r.result.hallucinated = 0 then "✓" else "✗"
  ("  " ++ mark ++ " " ++ padded 26 r.displayName ++ " " ++
      padded 14 (toString r.result.checked ++ " checked") ++ " " ++
      findingCount r.result.hallucinated) ::
    r.result.hallucinations.map fun h => "      " ++ h.raw ++ noteAfter h.suggestion

/-- The line that sums up. -/
def verdict (total : Nat) : String :=
  if total = 0 then "  0 finding(s). All references verified."
  else "  " ++ toString total ++ " finding(s). Fix the hallucinated references above."

/-- The report as a table. -/
def textReport (runs : List Run) : String :=
  let skipped := skippedNames runs
  "\n".intercalate
    (["", "planproof verification report", ""] ++ (applicableRuns runs).flatMap runLines ++
      (if skipped.isEmpty then [] else ["", "  Skipped: " ++ commaList skipped]) ++
      ["", verdict (totalFindings runs), ""])

end PlanAudit
