import PlanAudit.Json.Basic
import PlanAudit.Report.Finding

/-!
# The report for machines

## Main definitions

* `jsonReport`: the findings and the counts of every checker as a JSON value
-/

namespace PlanAudit

/-- A count as a JSON value. -/
def Json.ofNat (n : Nat) : Json := .number (.integer n)

/-- The version of the layout of the report. -/
def reportVersion : String := "1.0"

/-- The weight of every finding. -/
def findingSeverity : String := "error"

/-- A finding as a JSON value; a missing suggestion is left out. -/
def Finding.json (f : Finding) : Json :=
  .object
    ([("findingId", .string f.id), ("checker", .string f.checker),
        ("severity", .string findingSeverity), ("category", .string f.category.label),
        ("target", .string f.target), ("message", .string f.message)] ++
      match f.suggestion with
      | some s => [("suggestion", .string s)]
      | none => [])

/-- The counts of a checker as a JSON value. -/
def Run.json (r : Run) : Json :=
  .object
    [("checker", .string r.id), ("displayName", .string r.displayName),
      ("checked", .ofNat r.result.checked), ("findings", .ofNat r.result.hallucinated),
      ("applicable", .bool r.applicable)]

/-- The report as a JSON value, made at the given time. -/
def jsonReport (project timestamp : String) (runs : List Run) : Json :=
  .object
    [("schemaVersion", .string reportVersion), ("timestamp", .string timestamp),
      ("projectDir", .string project),
      ("summary", .object
        [("totalChecked", .ofNat (totalChecked runs)),
          ("totalFindings", .ofNat (totalFindings runs)),
          ("checkerResults", .array (runs.map Run.json))]),
      ("findings", .array ((findings runs).map Finding.json))]

end PlanAudit
