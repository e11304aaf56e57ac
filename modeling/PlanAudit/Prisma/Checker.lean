import PlanAudit.Checker.Basic
import PlanAudit.Prisma.Discovery
import PlanAudit.Prisma.Judgement

/-!
# The checker of Prisma clients

## Main definitions

* `reportLines`: the rejected references with what the schema has instead, and its models
* `checker`: the checker, which applies to projects with a schema
-/

namespace PlanAudit.Prisma

open PlanAudit.Text

/-- The suggestion behind a rejected reference. -/
def arrow (suggestion : Option String) : String :=
  match suggestion with
  | none => ""
  | some s => if s = "" then "" else " → " ++ code s

/-- What the schema has in place of a rejected reference. -/
def contextLines (schema : Schema) (r : Reference) : List String :=
  match r.category with
  | some .model =>
    ["  - Available models: " ++
      commaList (schema.accessorToModel.entries.map fun e => code e.1 ++ " (" ++ e.2 ++ ")")]
  | some .field =>
    match contextModel? schema r.ownerName with
    | some model => ["  - Fields on " ++ model.name ++ ": " ++ codeList model.fields.names]
    | none => []
  | _ => []

/-- The lines for a rejected reference. -/
def rejectedLines (schema : Schema) (r : Reference) : List String :=
  ("- " ++ code r.raw ++ " — " ++ (r.category.map (·.label)).getD "" ++ arrow r.suggestion) ::
    contextLines schema r

/-- The lines of the checker in the full report. -/
def reportLines (schema : Schema) (refs : List Reference) (r : Result) : List String :=
  let enums := if schema.enums.isEmpty then "" else " | Enums: " ++ commaList schema.enums
  ["## Prisma Schema", bold r.checked ++ " refs — " ++ bold r.hallucinated ++ " hallucinated"] ++
    (refs.filter (·.hallucinated)).flatMap (rejectedLines schema) ++
    (if r.hallucinated = 0 then ["All schema refs valid."] else []) ++
    ["", "**Schema:** " ++ codeList schema.models.names ++ enums, ""]

/-- The checker of Prisma clients. -/
def checker : Checker :=
  .ofPure "schema" "Prisma Schema" false fun audit =>
    match (schemaPlace? audit.project audit.options.schemaPath).bind
        (Schema.load? audit.project.files) with
    | none => .ok (.notApplicable "schema")
    | some schema =>
      let refs := analyze audit.plan schema
      Outcome.ofReferences "schema" refs (reportLines schema refs)
        (standardExcerpt "Schema Issues" "Prisma schema hallucination(s)")

end PlanAudit.Prisma
