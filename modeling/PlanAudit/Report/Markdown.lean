import PlanAudit.Report.Finding

/-!
# The report for readers

## Main definitions

* `markdownReport`: the lines of every checker that applied under a common heading
* `findingsContext`: the excerpts of the checkers that found something, for a reviewer
-/

namespace PlanAudit

open Text

/-- The line under the heading of the report. -/
def summaryLine (project : String) (runs : List Run) : String :=
  "**Project:** " ++ code project ++ " | " ++ bold (totalChecked (applicableRuns runs)) ++
    " references checked across " ++ toString (applicableRuns runs).length ++ " checker(s) — " ++
    bold (totalFindings runs) ++ " hallucinated"

/-- The report with what each checker judged by. -/
def markdownReport (project : String) (runs : List Run) : String :=
  let skipped := skippedNames runs
  let text := "\n".intercalate
    (["# Static Analysis Report", "", summaryLine project runs, ""] ++
      (applicableRuns runs).flatMap (·.outcome.lines) ++
      if skipped.isEmpty then [] else ["_Not applicable: " ++ commaList skipped ++ "_"])
  String.ofList (stripEnd text.toList) ++ "\n"

/-- The heading of the excerpts. -/
def contextHeading : String :=
  "## Static Analysis Findings\n\n" ++
    "The following references were verified against the project and do not exist."

/-- The excerpts of the checkers that found something; empty if none did. -/
def findingsContext (runs : List Run) : String :=
  let excerpts := ((applicableRuns runs).filterMap (·.outcome.excerpt)).filter (· != "")
  if excerpts.isEmpty then ""
  else "\n\n".intercalate (contextHeading :: excerpts) ++ "\n"

end PlanAudit
