import PlanAudit.Files.Tree

/-!
# Files near a path

A report shows, next to a path that does not exist, the real files that resemble it and those of
the directory it points into.

## Main definitions

* `resemblance`: how much a file resembles a path
* `closestPaths`: the files that resemble a path most
* `directoryFiles`: the files of the directory that a path points into
-/

namespace PlanAudit.Paths

open PlanAudit.Text

/-- The parts of a path in which resemblance is looked for. -/
structure PathParts where
  /-- The number of segments. -/
  depth : Nat
  /-- The name of the file, in lower case. -/
  fileName : List Char
  /-- The names of the directories, in lower case. -/
  directories : List (List Char)

/-- The parts of a path. -/
def PathParts.ofPath (path : String) : PathParts :=
  let parts := (segments path).map (lower ·.toList)
  ⟨parts.length, parts.getLast?.getD [], parts.dropLast⟩

/-- The text after the last dot of the name, or the whole name. -/
def PathParts.extension (p : PathParts) : List Char :=
  (p.fileName.reverse.takeWhile (· != '.')).reverse

/-- How much a file resembles a path: ten for the same name or five for a name that contains the
other, two for the same extension, three for each directory of the path that the file has too, less
the difference in depth. -/
def resemblance (path file : PathParts) : Int :=
  let byName : Int :=
    if file.fileName == path.fileName then 10
    else if contains file.fileName path.fileName || contains path.fileName file.fileName then 5
    else 0
  let byExtension : Int := if file.extension == path.extension then 2 else 0
  let byDirectory : Int := 3 * (path.directories.filter file.directories.contains).length
  byName + byExtension + byDirectory - ((file.depth : Int) - path.depth).natAbs

/-- The files that resemble a path most, the best first and in the order of the tree where they
resemble it equally. -/
def closestPaths (path : String) (tree : FileTree) (limit : Nat) : List String :=
  let wanted := PathParts.ofPath path
  let scored := (tree.paths.map fun p => (resemblance wanted (PathParts.ofPath p), p)).filter
    fun s => 0 < s.1
  ((scored.mergeSort fun a b => decide (b.1 ≤ a.1)).take limit).map (·.2)

/-- The path up to and including its last slash. -/
def directoryOf (path : String) : List Char :=
  (path.toList.reverse.dropWhile (· != '/')).reverse

/-- The files of the directory that a path points into, in alphabetical order.  Listing stops when
the limit is reached, but not before the first file. -/
def directoryFiles (path : String) (tree : FileTree) (limit : Nat) : List String :=
  let directory := directoryOf path
  if directory.isEmpty then []
  else
    ((tree.paths.filter fun p => beginsWith directory p.toList).take (max limit 1)).mergeSort
      fun a b => decide (a ≤ b)

end PlanAudit.Paths
