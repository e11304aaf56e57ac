import PlanAudit.Json.Writer
import PlanAudit.Number.Whole
import PlanAudit.Report.Finding

/-!
# Entries of the catch log

The catch log records what was caught: for each request that found something, the counts and the
rejected references of every checker.  An entry is written as one JSON object.

## Main definitions

* `CatchEntry`: an entry
* `CatchEntry.ofRuns`: the entry of some runs
* `CatchEntry.json`: the entry as a JSON value
* `CatchEntry.ofJson?`: the entry that a JSON value stands for
-/

namespace PlanAudit

/-- What a checker caught. -/
structure CatchCounts where
  /-- The number of references that were judged. -/
  checked : Int
  /-- The number of rejected references. -/
  hallucinated : Int
  /-- The rejected references as the plan writes them. -/
  items : List String
  deriving DecidableEq, Repr

/-- An entry of the catch log. -/
structure CatchEntry where
  /-- When the entry was made. -/
  timestamp : String
  /-- What was requested. -/
  tool : String
  /-- The name of the project. -/
  project : String
  /-- What each checker caught; nothing for one that did not apply. -/
  findings : Catalog (Option CatchCounts)
  /-- The number of references that were judged. -/
  totalChecked : Int
  /-- The number of rejected references. -/
  totalHallucinated : Int
  deriving DecidableEq

/-! ## Making entries -/

/-- What a checker caught; nothing if it did not apply. -/
def CatchCounts.ofResult? (r : Result) : Option CatchCounts :=
  if r.applicable then some ⟨r.checked, r.hallucinated, r.hallucinations.map (·.raw)⟩ else none

/-- The entry of some runs. -/
def CatchEntry.ofRuns (timestamp tool project : String) (runs : List Run) : CatchEntry :=
  { timestamp := timestamp
    tool := tool
    project := project
    findings := .ofList (runs.map fun r => (r.id, CatchCounts.ofResult? r.result))
    totalChecked := PlanAudit.totalChecked runs
    totalHallucinated := total (·.hallucinated) runs }

/-! ## Entries as JSON values -/

/-- A whole number as a JSON value. -/
def Json.ofInt (n : Int) : Json := .number (.integer n)

/-- The counts of a checker as a JSON value. -/
def CatchCounts.json (c : CatchCounts) : Json :=
  .object [("checked", .ofInt c.checked), ("hallucinated", .ofInt c.hallucinated),
    ("items", .array (c.items.map .string))]

/-- The counts of a checker, or null if it did not apply. -/
def CatchCounts.optionalJson : Option CatchCounts → Json
  | some c => c.json
  | none => .null

/-- The entry as a JSON value. -/
def CatchEntry.json (e : CatchEntry) : Json :=
  .object
    [("timestamp", .string e.timestamp), ("tool", .string e.tool),
      ("projectDir", .string e.project),
      ("findings", .object (e.findings.entries.map fun f => (f.1, CatchCounts.optionalJson f.2))),
      ("totalChecked", .ofInt e.totalChecked), ("totalHallucinated", .ofInt e.totalHallucinated)]

/-! ## Reading entries -/

/-- The member under a name, or else under its other spelling. -/
def Json.memberBy? (j : Json) (name other : String) : Option Json :=
  (j.member? name).or (j.member? other)

/-- The items of a list of strings, which may be missing. -/
def itemsOf? : Option Json → Option (List String)
  | none => some []
  | some (.array items) => items.mapM (·.string?)
  | some _ => none

/-- The counts that a JSON value stands for. -/
def CatchCounts.ofJson? (j : Json) : Option CatchCounts := do
  let checked ← (← j.member? "checked") |> Number.ofJson?
  let hallucinated ← (← j.member? "hallucinated") |> Number.ofJson?
  let items ← itemsOf? (j.member? "items")
  some ⟨checked, hallucinated, items⟩

/-- The counts that a JSON value stands for, where null stands for none. -/
def CatchCounts.ofOptionalJson? : Json → Option (Option CatchCounts)
  | .null => some none
  | j => (CatchCounts.ofJson? j).map some

/-- The findings that a JSON value stands for. -/
def findingsOf? : Json → Option (Catalog (Option CatchCounts))
  | .object members =>
    (members.mapM fun m => (CatchCounts.ofOptionalJson? m.2).map fun c => (m.1, c)).map .ofList
  | _ => none

/-- The entry that a JSON value stands for.  Members of other names are passed over. -/
def CatchEntry.ofJson? (j : Json) : Option CatchEntry := do
  let timestamp ← (← j.member? "timestamp").string?
  let tool ← (← j.member? "tool").string?
  let project ← (← j.memberBy? "projectDir" "project_dir").string?
  let findings ← findingsOf? (← j.member? "findings")
  let totalChecked ← Number.ofJson? (← j.memberBy? "totalChecked" "total_checked")
  let totalHallucinated ← Number.ofJson? (← j.memberBy? "totalHallucinated" "total_hallucinated")
  some ⟨timestamp, tool, project, findings, totalChecked, totalHallucinated⟩

end PlanAudit
