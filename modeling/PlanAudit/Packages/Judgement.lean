import PlanAudit.Packages.ImportMentions
import PlanAudit.Packages.Manifest
import PlanAudit.Suggestion

/-!
# Judging imported packages

## Main definitions

* `suggestPackage`: an installed package whose name overlaps that of a missing one
* `judgeImport`: the judgement of an import
* `analyzeImports`: the judgements of the imports of a plan
-/

namespace PlanAudit.Packages

open PlanAudit.Text

/-- An installed package whose name overlaps the given one.  A name with a scope is looked for only
inside its scope; any other is not suggested for itself. -/
def suggestPackage (files : FileSystem) (packages : Path) (name : String) : Option String :=
  if stringBegins "@" name then
    let scope := String.ofList (name.toList.takeWhile (· != '/'))
    let bare := dropString (scope.length + 1) name
    (suggest bare (installed files (packages.join scope))).map fun found => scope ++ "/" ++ found
  else suggest name ((installed files packages).filter (· != name))

/-- The package that a mention names; where the specifier has none, the specifier itself. -/
def mentionedPackage (m : Mention) : String :=
  if m.ownerName = "" then m.raw else m.ownerName

/-- The number of subpaths that are listed in a suggestion. -/
def maxListedSubpaths : Nat := 5

/-- The suggestion that lists exported subpaths, if there are any besides the root. -/
def subpathSuggestion (exported : List String) : Option String :=
  let available := (exported.filter (· != ".")).map (withoutStart "./")
  if available.isEmpty then none
  else some ("available: " ++ commaList (available.take maxListedSubpaths))

/-- The judgement of an import of a subpath.  A package that does not list its subpaths admits
any. -/
def judgeSubpath (m : Mention) (subpath : String) : Option (List String) → Reference
  | none => m.accept
  | some exported =>
    if matchesSubpath subpath exported then m.accept
    else m.reject .subpathNotExported (subpathSuggestion exported)

/-- The judgement of an import. -/
def judgeImport (files : FileSystem) (packages : Path) (m : Mention) : Except Fault Reference :=
  let package := mentionedPackage m
  let directory := packages.join package
  if !files.isFile (directory.join manifestName) then
    .ok (m.reject .packageNotFound (suggestPackage files packages package))
  else
    match m.name with
    | none => .ok m.accept
    | some subpath => (exports? files directory).map (judgeSubpath m subpath)

/-- The judgements of the imports of a plan. -/
def analyzeImports (plan : List Char) (files : FileSystem) (packages : Path) :
    Except Fault (List Reference) :=
  ((importMentions plan).mapM (judgeImport files packages)).map Reference.dedupe

end PlanAudit.Packages
