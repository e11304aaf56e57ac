import PlanAudit.Text.Basic

/-!
# Paths

The path of a file from the root of the file system, as the list of its segments.  A path is taken
as written: double dots stay until the file system resolves them.

## Main definitions

* `Path.join`: a written path seen from a directory
* `Path.parent`, `Path.fileName`, `Path.ancestors`: parts of a path
* `Path.tidied`: a written path without what does not count
* `Path.toString`, `Path.collapsed`: the written form, and the path without double dots
-/

namespace PlanAudit

open Text

/-- A path as the list of its segments from the root. -/
abbrev Path := List String

namespace Path

/-- The segments of a written path that count: neither empty nor a single dot. -/
def writtenSegments (s : String) : List String := (properSegments s).filter (· != ".")

/-- The written path seen from a directory; one that starts with a slash starts at the root. -/
def join (base : Path) (s : String) : Path :=
  if stringBegins "/" s then writtenSegments s else base ++ writtenSegments s

/-- The path of a written one that starts at the root. -/
def ofString (s : String) : Path := join [] s

/-- The slashes at the start of a written path that count: two exactly stay two. -/
def leadingSlashes (s : String) : String :=
  if stringBegins "//" s && !stringBegins "///" s then "//"
  else if stringBegins "/" s then "/"
  else ""

/-- The written path without empty segments and single dots. -/
def tidied (s : String) : String :=
  let text := leadingSlashes s ++ "/".intercalate (writtenSegments s)
  if text.isEmpty then "." else text

/-- The path without its last segment. -/
def parent (p : Path) : Path := p.dropLast

/-- The last segment; the root has the empty name. -/
def fileName (p : Path) : String := p.getLast?.getD ""

/-- The path and the directories above it, from the path up to the root. -/
def ancestors (p : Path) : List Path :=
  (List.range (p.length + 1)).map fun n => p.take (p.length - n)

/-- The written form of a path. -/
def toString (p : Path) : String := "/" ++ "/".intercalate p

/-- The segments with each double dot and the segment before it removed; double dots that climb
above the start are dropped. -/
def collapsed (segments : List String) : List String :=
  segments.foldl (fun acc s => if s == ".." then acc.dropLast else acc ++ [s]) []

/-- The written path of a target seen from a directory: up to where the two part, and down. -/
def relative (target base : Path) : String :=
  let rec strip : List String → List String → List String × List String
    | a :: as, b :: bs => if a = b then strip as bs else (a :: as, b :: bs)
    | as, bs => (as, bs)
  let (down, up) := strip (collapsed target) (collapsed base)
  let segments := up.map (fun _ => "..") ++ down
  if segments.isEmpty then "." else "/".intercalate segments

end Path

end PlanAudit
