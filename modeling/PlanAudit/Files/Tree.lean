import PlanAudit.Text.Basic

/-!
# File trees

The paths of the files of a project, relative to its directory and with slashes between segments,
in the order of the scan that found them.

## Main definitions

* `FileTree`: the paths, none listed twice
* `FileTree.findSuffix?`: a path that ends in a given path
* `FileTree.withExtension`: the paths with one of some endings
-/

namespace PlanAudit

open Text

/-- The paths of the files of a project. -/
structure FileTree where
  /-- The paths in order. -/
  paths : List String
  deriving DecidableEq, Repr

namespace FileTree

/-- The tree of the paths, of repeated paths only the first. -/
def ofList (paths : List String) : FileTree := ⟨firstPerKey id paths⟩

/-- The number of files. -/
def size (t : FileTree) : Nat := t.paths.length

/-- Whether the path is listed. -/
def contains (t : FileTree) (path : String) : Bool := t.paths.contains path

/-- The first path that ends in the given path after a slash. -/
def findSuffix? (t : FileTree) (path : String) : Option String :=
  t.paths.find? fun p => stringEnds ("/" ++ path) p

/-- The paths with one of the endings. -/
def withExtension (t : FileTree) (extensions : List String) : List String :=
  t.paths.filter fun p => extensions.any (stringEnds · p)

end FileTree

end PlanAudit
