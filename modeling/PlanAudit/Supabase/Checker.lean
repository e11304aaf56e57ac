import PlanAudit.Checker.Basic
import PlanAudit.Supabase.Discovery
import PlanAudit.Supabase.Judgement

/-!
# The checker of Supabase queries

## Main definitions

* `reportLines`: the rejected references, and the tables, functions and enumerations
* `checker`: the checker, which applies to projects with the type of a database that has tables
-/

namespace PlanAudit.Supabase

open PlanAudit.Text

/-- The bullet for a rejected reference. -/
def rejectedLine (r : Reference) : String :=
  issueLine r.raw ((r.category.map (·.label)).getD "") r.suggestion

/-- An enumeration with its values. -/
def enumText (entry : String × List String) : String :=
  entry.1 ++ " (" ++ " | ".intercalate entry.2 ++ ")"

/-- The lines that list what the schema declares. -/
def schemaLines (schema : Schema) : List String :=
  (schema.tables.values.map fun t => "- " ++ code t.name ++ ": " ++ codeList t.columns.names) ++
    (if schema.functions.isEmpty then []
      else ["**Functions:** " ++ codeList schema.functions.names]) ++
    (if schema.enums.isEmpty then []
      else ["**Enums:** " ++ commaList (schema.enums.entries.map enumText)])

/-- The lines of the checker in the full report. -/
def reportLines (schema : Schema) (refs : List Reference) (r : Result) : List String :=
  ["## Supabase Schema",
      bold schema.tables.size ++ " tables, " ++ bold schema.functions.size ++ " functions (from " ++
        code (schema.typesFile.getD "?") ++ "), " ++ bold r.checked ++ " refs — " ++
        bold r.hallucinated ++ " hallucinated"] ++
    (refs.filter (·.hallucinated)).map rejectedLine ++
    (if r.hallucinated = 0 then ["All Supabase refs valid."] else []) ++ [""] ++
    schemaLines schema ++ [""]

/-- The checker of Supabase queries. -/
def checker : Checker :=
  .ofPure "supabaseSchema" "Supabase Schema" false fun audit =>
    audit.tree.bind fun tree =>
      match (Schema.ofProject? audit.project tree).filter (!·.tables.isEmpty) with
      | none => .ok (.notApplicable "supabaseSchema")
      | some schema =>
        let refs := analyze audit.plan schema
        Outcome.ofReferences "supabaseSchema" refs (reportLines schema refs)
          (standardExcerpt "Supabase Schema Issues" "Supabase schema hallucination(s)")

end PlanAudit.Supabase
