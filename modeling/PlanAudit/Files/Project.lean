import PlanAudit.Files.Scan

/-!
# Projects

A project is a directory of a file system.  Its files are named by paths relative to it.

## Main definitions

* `Project`: a directory in a file system
* `Project.readText?`, `Project.isFile`: the files of the project
* `Project.scan`: the file tree of the project
-/

namespace PlanAudit

/-- A directory in a file system. -/
structure Project where
  /-- The file system. -/
  files : FileSystem
  /-- The directory of the project. -/
  directory : Path

namespace Project

/-- The name of the project: that of its directory. -/
def name (p : Project) : String := p.directory.fileName

/-- The place of a path relative to the project. -/
def place (p : Project) (path : String) : Path := p.directory.join path

/-- Whether the project has a file under the path. -/
def isFile (p : Project) (path : String) : Bool := p.files.isFile (p.place path)

/-- The text of a file of the project, if it is one. -/
def readText? (p : Project) (path : String) : Option (List Char) :=
  p.files.readText? (p.place path)

/-- The given files of the project with their texts, those that are no texts left out. -/
def texts (p : Project) (paths : List String) : List (String × List Char) :=
  paths.filterMap fun path => (p.readText? path).map fun text => (path, text)

/-- The directory of the installed packages. -/
def packages (p : Project) : Path := p.place "node_modules"

/-- The file tree of the project. -/
def scan (p : Project) (depth : Int) (skipped : List String) : Except Fault FileTree :=
  p.files.scan p.directory depth skipped

end Project

end PlanAudit
