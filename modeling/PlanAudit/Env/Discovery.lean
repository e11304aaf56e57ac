import PlanAudit.Env.Judgement
import PlanAudit.Files.Project

/-!
# Environment files of a project

## Main definitions

* `fileNames`: the names of environment files, in the order in which they are read
* `Index.ofProject`: the environment files of a project and what they define
-/

namespace PlanAudit.Env

/-- The names of environment files, in the order in which they are read. -/
def fileNames : List String :=
  [".env", ".env.example", ".env.local", ".env.development", ".env.production", ".env.test",
    ".env.staging"]

/-- The environment files of a project and the variables they define. -/
def Index.ofProject (p : Project) : Index :=
  (fileNames.filter p.isFile).foldl (fun index file => index.add file (p.readText? file)) .empty

end PlanAudit.Env
