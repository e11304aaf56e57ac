import PlanAudit.Checker.Basic
import PlanAudit.Sql.Discovery
import PlanAudit.Sql.Judgement

/-!
# The checker of database tables

## Main definitions

* `reportLines`: the rejected references, and the tables with their columns
* `checker`: the checker, which applies to projects that declare tables
-/

namespace PlanAudit.Sql

/-- The bullet for a rejected reference. -/
def rejectedLine (r : Reference) : String :=
  issueLine r.raw (if r.category = some .table then "table not found" else "column not found")
    r.suggestion

/-- The bullets for the rejected references. -/
def rejectedLines (refs : List Reference) : List String :=
  (refs.filter (·.hallucinated)).map rejectedLine

/-- The bullet for a table with its columns. -/
def tableLine (t : Table) : String :=
  let bound :=
    match t.variableName with
    | some v => " (" ++ code v ++ ")"
    | none => ""
  "- " ++ code t.name ++ bound ++ ": " ++ codeList t.columns.names

/-- The lines of the checker in the full report. -/
def reportLines (schema : Schema) (refs : List Reference) (r : Result) : List String :=
  ["## SQL/Drizzle Schema",
      bold schema.tables.size ++ " tables, " ++ bold r.checked ++ " refs — " ++
        bold r.hallucinated ++ " hallucinated"] ++
    rejectedLines refs ++ (if r.hallucinated = 0 then ["All SQL refs valid."] else []) ++ [""] ++
    schema.tables.values.map tableLine ++ [""]

/-- The excerpt for a reviewer. -/
def excerpt (refs : List Reference) : Result → Option String :=
  ownExcerpt "SQL Schema Issues" "SQL/Drizzle schema hallucination(s)" (rejectedLines refs)

/-- The checker of database tables. -/
def checker : Checker :=
  .ofPure "sqlSchema" "SQL/Drizzle Schema" false fun audit =>
    audit.tree.bind fun tree =>
      let schema := Schema.ofProject audit.project tree
      if schema.tables.isEmpty then .ok (.notApplicable "sqlSchema")
      else
        let refs := analyze audit.plan schema
        Outcome.ofReferences "sqlSchema" refs (reportLines schema refs) (excerpt refs)

end PlanAudit.Sql
