import PlanAudit.Files.Project
import PlanAudit.Sql.Schema

/-!
# Database tables of a project

## Main definitions

* `builtIn`, `statedIn`: the tables that a file declares, in either way
* `Schema.ofProject`: the tables of a project
-/

namespace PlanAudit.Sql

open PlanAudit.Text

/-- Whether the file may declare tables by builder functions. -/
def isBuilderFile (path : String) : Bool := stringEnds ".ts" path || stringEnds ".js" path

/-- The tables that a file declares by builder functions. -/
def builtIn (file : String × List Char) : List Table :=
  if isBuilderFile file.1 then builderTables file.2 file.1 else []

/-- The tables that a file declares by statements. -/
def statedIn (file : String × List Char) : List Table :=
  if stringEnds ".sql" file.1 then statementTables file.2 file.1 else []

/-- The schema of the files of a project, given with their texts. -/
def Schema.ofFiles (files : List (String × List Char)) : Schema :=
  (files.flatMap statedIn).foldl addStated ((files.flatMap builtIn).foldl addBuilt .empty)

/-- The tables of a project. -/
def Schema.ofProject (p : Project) (tree : FileTree) : Schema :=
  .ofFiles (p.texts (tree.withExtension [".ts", ".js", ".sql"]))

end PlanAudit.Sql
