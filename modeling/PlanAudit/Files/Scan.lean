import PlanAudit.Files.Ignore
import PlanAudit.Files.Tree

/-!
# Scanning a project

A scan lists the files of a project, directory by directory and in each by name.  It leaves out
directories of fixed names and the paths that are ignored, and stops at a depth.  Which paths are
ignored is a predicate like any other to it; in a project the ignore file tells.

## Main definitions

* `Scan`: what a scan leaves out
* `scanWithin`: the files of a directory down to a number of levels
* `FileSystem.listing`: the files of a project without those that are ignored
* `FileSystem.scan`: the same, where the ignore file of the project tells what is ignored
-/

namespace PlanAudit

open Text

/-- The names of directories that are left out unless others are given. -/
def defaultSkipped : List String :=
  ["node_modules", ".git", "dist", "build", ".planproof", "__pycache__", ".next", ".venv", "venv"]

/-- The number of levels below the project that are scanned unless another is given. -/
def defaultScanDepth : Int := 6

/-- What a scan leaves out. -/
structure Scan where
  /-- The names of directories. -/
  skipped : List String
  /-- Whether a path is ignored; that of a directory ends in a slash. -/
  ignored : String → Bool

/-- The path of a name in a directory, both relative to the project. -/
def relativePath (directory name : String) : String :=
  if directory = "" then name else directory ++ "/" ++ name

/-- The files of a directory and of those below it, down to the given number of levels; `shown` is
the directory relative to the project. -/
def scanWithin (fs : FileSystem) (scan : Scan) : Nat → Path → String → List String
  | 0, _, _ => []
  | levels + 1, directory, shown =>
    (fs.names directory).flatMap fun name =>
      let place := directory ++ [name]
      let path := relativePath shown name
      if fs.isDirectory place then
        if scan.skipped.contains name || scan.ignored (path ++ "/") then []
        else scanWithin fs scan levels place path
      else if fs.isFile place && !scan.ignored path then [path]
      else []

/-- The files of a project that a scan lists, down to `depth` levels below it. -/
def FileSystem.listing (fs : FileSystem) (scan : Scan) (project : Path) (depth : Int) : FileTree :=
  .ofList (scanWithin fs scan (depth + 1).toNat project "")

/-- The file tree of a project, down to `depth` levels below it, without what its ignore file
names. -/
def FileSystem.scan (fs : FileSystem) (project : Path) (depth : Int) (skipped : List String) :
    Except Fault FileTree :=
  (fs.ignoreRules project).map fun rules => fs.listing ⟨skipped, ignores rules⟩ project depth

end PlanAudit
