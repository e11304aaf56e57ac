import PlanAudit.Files.Project
import PlanAudit.Types.Declaration

/-!
# Type declarations of a project

## Main definitions

* `sourceFiles`: the files in which types are looked for
* `Index.ofProject`: the declarations of a project
-/

namespace PlanAudit.Types

open PlanAudit.Text

/-- The files in which types are looked for; declaration files are left out. -/
def sourceFiles (tree : FileTree) : List String :=
  (tree.withExtension [".ts", ".tsx"]).filter fun path => !stringEnds ".d.ts" path

/-- The declarations of a project by name; the last of a name counts. -/
def Index.ofProject (p : Project) (tree : FileTree) : Index :=
  (p.texts (sourceFiles tree)).foldl
    (fun index file => index.add (declarations file.2 file.1)) .empty

end PlanAudit.Types
