import PlanAudit.Packages.Name
import PlanAudit.Pattern.Build
import PlanAudit.Reference

/-!
# Imported packages in a plan

## Main definitions

* `importSources`: every module specifier in a plan
* `importMentions`: the packages and subpaths that a plan imports
-/

namespace PlanAudit.Packages

open PlanAudit.Text Pattern

/-- An import or re-export with a `from` clause. -/
def importFrom : Pattern :=
  wordEdge ++ oneOfTexts ["import", "export"] ++ blanks1 ++ starLazy (noneOf "'\";") ++
    wordEdge ++ lit "from" ++ blanks1 ++ quoted 1

/-- A call of `function` with a specifier as its only argument. -/
def loadCall (function : String) : Pattern :=
  wordEdge ++ lit function ++ blanks ++ char '(' ++ blanks ++ quoted 1 ++ blanks ++ char ')'

/-- The three ways to load a module. -/
def loadPatterns : List Pattern := [importFrom, loadCall "require", loadCall "import"]

/-- Every module specifier in the plan, each once, without white space around it. -/
def importSources (plan : List Char) : List String :=
  firstPerKey id
    ((loadPatterns.flatMap fun p =>
      (p.findAll plan).map fun m => String.ofList (strip (m.group 1))).filter (· != ""))

/-- The mention made by a specifier. -/
def importMention (source : String) : Mention :=
  let s := splitSpecifier source
  { raw := source, kind := .importSource, owner := some s.package, name := s.subpath }

/-- The packages that the plan imports, with their subpaths. -/
def importMentions (plan : List Char) : List Mention :=
  ((importSources plan).filter fun s => !isLocalSpecifier s).map importMention

end PlanAudit.Packages
