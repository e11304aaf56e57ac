import PlanAudit.Checker.Run
import PlanAudit.Digest.Sha256

/-!
# Findings

A finding is a rejected reference of a checker that applied.  It is named by a digest of what it is
about, so that the same plan and project always give the same names.

## Main definitions

* `Finding`: a rejected reference in a report
* `findingId`: the name of a finding
* `findings`: the findings of some runs
* `totalFindings`, `exitCode`: their number, and what the command line makes of it
-/

namespace PlanAudit

open Text

/-- A rejected reference in a report. -/
structure Finding where
  /-- The name of the finding. -/
  id : String
  /-- The checker that rejected the reference. -/
  checker : String
  /-- Why the reference is rejected. -/
  category : Category
  /-- The reference as the plan writes it. -/
  target : String
  /-- What may have been meant. -/
  suggestion : Option String
  deriving DecidableEq, Repr

/-- The number of digits in the name of a finding. -/
def findingIdLength : Nat := 12

/-- What the name of a finding is a digest of. -/
def findingPayload (checker category target : String) : String :=
  checker ++ ":" ++ category ++ ":" ++ target

/-- The name of a finding. -/
def findingId (checker category target : String) : String :=
  String.ofList ((Digest.hexDigest
    (utf8Bytes (findingPayload checker category target).toList)).take findingIdLength)

/-- The finding that a checker makes of a rejected reference. -/
def Finding.ofHallucination (checker : String) (h : Hallucination) : Finding :=
  { id := findingId checker h.category.label h.raw
    checker := checker
    category := h.category
    target := h.raw
    suggestion := h.suggestion }

/-- What a finding says. -/
def Finding.message (f : Finding) : String := f.category.message f.target

/-- The runs of the checkers that applied. -/
def applicableRuns (runs : List Run) : List Run := runs.filter (·.applicable)

/-- The names of the checkers that did not apply. -/
def skippedNames (runs : List Run) : List String :=
  (runs.filter (!·.applicable)).map (·.displayName)

/-- The findings of the checkers that applied. -/
def findings (runs : List Run) : List Finding :=
  (applicableRuns runs).flatMap fun r =>
    r.result.hallucinations.map (Finding.ofHallucination r.id)

/-- The counts of all runs together. -/
def total (count : Result → Nat) (runs : List Run) : Nat :=
  runs.foldr (fun r n => count r.result + n) 0

/-- The number of rejected references that the checkers that applied counted. -/
def totalFindings (runs : List Run) : Nat := total (·.hallucinated) (applicableRuns runs)

/-- The number of references that the given runs judged. -/
def totalChecked (runs : List Run) : Nat := total (·.checked) runs

/-- What the command line exits with: one if anything was found. -/
def exitCode (runs : List Run) : Nat := if totalFindings runs = 0 then 0 else 1

end PlanAudit
