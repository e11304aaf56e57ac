import PlanAudit.Files.Project
import PlanAudit.Prisma.Schema

/-!
# The Prisma schema of a project

## Main definitions

* `schemaPlace?`: where the schema of a project lies
* `Schema.load?`: the schema that a file declares
-/

namespace PlanAudit.Prisma

/-- The path of the schema by convention. -/
def conventionalPath : String := "prisma/schema.prisma"

/-- Where the schema of a project lies: at the given path, seen from the project, or else by
convention; nowhere if there is no such file. -/
def schemaPlace? (p : Project) (given : Option String) : Option Path :=
  let place := p.place (given.getD conventionalPath)
  if p.files.isFile place then some place else none

/-- The schema that a file declares, if it is a text. -/
def Schema.load? (files : FileSystem) (place : Path) : Option Schema :=
  (files.readText? place).map Schema.parse

end PlanAudit.Prisma
