import PlanAudit.Catalog
import PlanAudit.Env.Keys
import PlanAudit.Suggestion

/-!
# Judging environment variables

## Main definitions

* `Index`: the environment files of a project and the variables they define
* `judge`: the judgement of a variable
* `analyze`: the judgements of the variables of a plan
-/

namespace PlanAudit.Env

/-- The environment files of a project and the variables they define. -/
structure Index where
  /-- The names of the files. -/
  files : List String
  /-- The files that define each variable. -/
  definedIn : Catalog (List String)

/-- The index without files. -/
def Index.empty : Index := ⟨[], .empty⟩

/-- The index with a file added; a file that cannot be read defines nothing. -/
def Index.add (index : Index) (file : String) (content : Option (List Char)) : Index :=
  { files := index.files ++ [file]
    definedIn :=
      ((content.map definedKeys).getD []).foldl (fun c key => c.push key file) index.definedIn }

/-- The judgement of a variable. -/
def judge (index : Index) (m : Mention) : Reference :=
  let name := match m.name with
    | some n => if n = "" then m.raw else n
    | none => m.raw
  if index.definedIn.contains name then m.accept
  else m.reject .envVariable (suggest name index.definedIn.names)

/-- The judgements of the variables of a plan. -/
def analyze (plan : List Char) (index : Index) : List Reference :=
  Reference.dedupe ((mentions plan).map (judge index))

end PlanAudit.Env
