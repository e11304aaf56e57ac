import PlanAudit.Checker.Basic
import PlanAudit.Types.Discovery
import PlanAudit.Types.Judgement

/-!
# The checker of declared types

## Main definitions

* `reportLines`: the rejected references, with the files that declare their types
* `checker`: the checker, which applies to projects that declare types
-/

namespace PlanAudit.Types

/-- The lines for a rejected reference. -/
def rejectedLines (index : Index) (r : Reference) : List String :=
  issueLine r.raw (if r.category = some .type then "type not found" else "member not found")
      r.suggestion ::
    match index.find? r.ownerName with
    | some d => ["  - Declared in " ++ code d.sourceFile]
    | none => []

/-- The lines of the checker in the full report. -/
def reportLines (index : Index) (refs : List Reference) (r : Result) : List String :=
  ["## TypeScript Types",
      bold index.size ++ " declared types, " ++ bold r.checked ++ " refs checked — " ++
        bold r.hallucinated ++ " hallucinated"] ++
    (refs.filter (·.hallucinated)).flatMap (rejectedLines index) ++
    (if r.hallucinated = 0 then ["All type refs valid."] else []) ++ [""]

/-- The checker of declared types. -/
def checker : Checker :=
  .ofPure "types" "TypeScript Types" true fun audit =>
    audit.tree.bind fun tree =>
      let index := Index.ofProject audit.project tree
      if index.isEmpty then .ok (.notApplicable "types")
      else
        let refs := analyze audit.plan index
        Outcome.ofReferences "types" refs (reportLines index refs)
          (standardExcerpt "Type Issues" "TypeScript type hallucination(s)")

end PlanAudit.Types
