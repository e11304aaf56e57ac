import PlanAudit.Files.Project
import PlanAudit.Supabase.Schema

/-!
# The Supabase schema of a project

## Main definitions

* `candidates`: the files that may hold the type of the database, in the order they are tried
* `Schema.ofProject?`: the schema of a project
-/

namespace PlanAudit.Supabase

/-- The paths of the type by convention. -/
def conventionalPaths : List String :=
  ["lib/types/database.types.ts", "types/supabase.ts", "src/types/database.types.ts",
    "src/types/supabase.ts", "database.types.ts", "types/database.types.ts",
    "src/database.types.ts", "lib/database.types.ts", "src/lib/database.types.ts"]

/-- The files that may hold the type of the database: those at the conventional paths, then all
others of the language. -/
def candidates (tree : FileTree) : List String :=
  let conventional := conventionalPaths.filter tree.contains
  conventional ++ (tree.withExtension [".ts"]).filter fun path => !conventional.contains path

/-- The schema that the first of the files with the type of a database declares. -/
def Schema.ofProject? (p : Project) (tree : FileTree) : Option Schema :=
  ((p.texts (candidates tree)).find? fun file => isDatabaseTypes file.2).map fun file =>
    { Schema.parse file.2 with typesFile := some file.1 }

end PlanAudit.Supabase
