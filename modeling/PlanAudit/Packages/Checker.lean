import PlanAudit.Checker.Basic
import PlanAudit.Packages.ApiJudgement
import PlanAudit.Packages.Judgement

/-!
# The checkers of packages

One checker judges what is imported, the other the names and members of what is imported.

## Main definitions

* `importChecker`: the checker of imports, which applies to projects with installed packages
* `apiChecker`: the checker of imported names, which applies if the exports of some imported
  package are known
-/

namespace PlanAudit.Packages

open PlanAudit.Text

/-! ## Imports -/

/-- The bullets for the rejected imports, with the word for a package that is missing. -/
def rejectedImports (missing : String) (refs : List Reference) : List String :=
  (refs.filter (·.hallucinated)).map fun r =>
    issueLine r.raw (if r.category = some .packageNotFound then missing else "subpath not exported")
      r.suggestion

/-- The lines of the checker of imports in the full report. -/
def importLines (refs : List Reference) (r : Result) : List String :=
  ["## Imports", bold r.checked ++ " checked — " ++ bold r.hallucinated ++ " hallucinated"] ++
    rejectedImports "not installed" refs ++
    (if r.hallucinated = 0 then ["All imports valid."] else []) ++ [""]

/-- The checker of imports. -/
def importChecker : Checker :=
  .ofPure "imports" "Imports" false fun audit =>
    let files := audit.project.files
    let packages := audit.project.packages
    if !files.isDirectory packages then .ok (.notApplicable "imports")
    else
      (analyzeImports audit.plan files packages).bind fun refs =>
        Outcome.ofReferences "imports" refs (importLines refs)
          (ownExcerpt "Import Issues" "hallucinated import(s)"
            (rejectedImports "package not found" refs))

/-! ## Names and members -/

/-- The number of exports that are listed. -/
def maxListedExports : Nat := 20

/-- The package from which a rejected name comes. -/
def packageOf? (bound : List Binding) (r : Reference) : Option String :=
  if r.kind = .namedImport then r.owner
  else (bound.find? fun b => some b.localName = r.owner).map (·.package)

/-- The lines for a rejected name or member, with the exports of its package. -/
def rejectedNameLines (apis : Catalog Api) (bound : List Binding) (r : Reference) : List String :=
  issueLine r.raw (if r.category = some .namedImport then "not exported" else "member not found")
      r.suggestion ::
    match (packageOf? bound r).bind apis.find? with
    | some api =>
      ["  - Available exports: " ++ commaList (api.exports.take maxListedExports)]
    | none => []

/-- The number of judged references of a kind. -/
def countKind (kind : Kind) (refs : List Reference) : Nat :=
  (refs.filter (·.kind == kind)).length

/-- The lines of the checker of names in the full report. -/
def apiLines (apis : Catalog Api) (bound : List Binding) (refs : List Reference) (r : Result) :
    List String :=
  ["## Package API",
      bold (countKind .namedImport refs) ++ " named imports, " ++ bold (countKind .member refs) ++
        " member accesses checked — " ++ bold r.hallucinated ++ " hallucinated"] ++
    (refs.filter (·.hallucinated)).flatMap (rejectedNameLines apis bound) ++
    (if r.hallucinated = 0 then ["All package API refs valid."] else []) ++ [""]

/-- The outcome of the checker of names, given the exports of the imported packages. -/
def apiOutcome (plan : List Char) (apis : Catalog Api) : Except Fault Outcome :=
  if apis.isEmpty then .ok (.notApplicable "packageApi")
  else
    let refs := analyzeApi plan apis
    Outcome.ofReferences "packageApi" refs (apiLines apis (bindings plan) refs)
      (standardExcerpt "Package API Issues" "package API hallucination(s)")

/-- The checker of imported names and their members. -/
def apiChecker : Checker where
  id := "packageApi"
  displayName := "Package API"
  experimental := true
  run audit cache :=
    let files := audit.project.files
    let packages := audit.project.packages
    if !files.isDirectory packages then (.ok (.notApplicable "packageApi"), cache)
    else
      let (apis, cache) := resolveApis files packages (boundPackages audit.plan) cache
      (apis.bind (apiOutcome audit.plan), cache)

end PlanAudit.Packages
