import PlanAudit.Files.Path
import PlanAudit.Text.Utf8

/-!
# File systems

A file system is a finite collection of files, directories and symbolic links under the paths where
they are stored.  A path that is asked for is walked segment by segment; links are followed, but no
more of them than a fixed number.

Two reasons for which a request can be refused elsewhere are left out.  There are no permissions:
what is stored can be listed, read and written.  There is no limit on the length of names and paths:
a name that is too long for a disk leads nowhere, like any other that is not stored.

## Main definitions

* `Content`: the content of a file, as a text if its bytes are one
* `FileSystem`: what is stored where
* `FileSystem.locate?`: the place to which a path leads, if something is stored there
* `FileSystem.realPath`: the place to which a path would lead, whether or not something is there
* `FileSystem.isFile`, `FileSystem.isDirectory`, `FileSystem.readText?`, `FileSystem.names`: reading
* `FileSystem.write`, `FileSystem.append?`, `FileSystem.remove`: change
-/

namespace PlanAudit

open Text

/-! ## Contents -/

/-- The content of a file. -/
inductive Content where
  /-- A text in UTF-8. -/
  | text (chars : List Char)
  /-- Bytes that are no text in UTF-8. -/
  | binary (bytes : List UInt8)
  deriving DecidableEq, Repr

namespace Content

/-- The content with the given bytes. -/
def ofBytes (bytes : List UInt8) : Content :=
  match decodeStrict? bytes with
  | some chars => text chars
  | none => binary bytes

/-- The text of the content with unified line ends, if it is a text. -/
def read? : Content → Option (List Char)
  | text chars => some (unifyLineEnds chars)
  | binary _ => none

/-- The text of the content with unified line ends; what is no text is replaced. -/
def readLenient : Content → List Char
  | text chars => unifyLineEnds chars
  | binary bytes => unifyLineEnds (decodeLenient bytes)

/-- The content with a text added at the end. -/
def append : Content → List Char → Content
  | text chars, more => text (chars ++ more)
  | binary bytes, more => ofBytes (bytes ++ utf8Bytes more)

end Content

/-! ## File systems -/

/-- What is stored under a path. -/
inductive Entry where
  /-- A file with its content. -/
  | file (content : Content)
  /-- A directory. -/
  | directory
  /-- A link to a written path, seen from the directory that holds the link. -/
  | link (target : String)
  deriving DecidableEq, Repr

/-- What is stored where. -/
structure FileSystem where
  /-- The entries with the paths under which they are stored. -/
  entries : List (Path × Entry)

namespace FileSystem

/-- The file system that holds nothing but the root. -/
def empty : FileSystem := ⟨[]⟩

/-- What is stored under exactly this path; the root is a directory. -/
def storedAt? (fs : FileSystem) (p : Path) : Option Entry :=
  if p.isEmpty then some .directory else fs.entries.lookup p

/-! ## Walking -/

/-- What to do at a link: its directory, its name, its target and the segments still to walk. -/
abbrev LinkRule := Path → String → String → List String → Option Path

/-- The place reached from the directory `base` along the segments.  Where `strict` is set, every
segment must be stored, and only the last one may be a file. -/
def walk (fs : FileSystem) (strict : Bool) (atLink : LinkRule) :
    Path → List String → Option Path
  | base, [] => some base
  | base, segment :: rest =>
    if segment = ".." then walk fs strict atLink base.dropLast rest
    else
      match fs.storedAt? (base ++ [segment]) with
      | some (.link target) => atLink base segment target rest
      | some .directory => walk fs strict atLink (base ++ [segment]) rest
      | some (.file _) =>
        if strict && !rest.isEmpty then none else walk fs strict atLink (base ++ [segment]) rest
      | none => if strict then none else walk fs strict atLink (base ++ [segment]) rest

/-- The directory and the segments to walk after a link is replaced by its target. -/
def afterLink (base : Path) (target : String) (rest : List String) : Path × List String :=
  (if stringBegins "/" target then [] else base, Path.writtenSegments target ++ rest)

/-- The number of links that are followed on the way to a file. -/
def maxLinks : Nat := 40

/-- The place reached if at most the given number of links is followed. -/
def locateWithin (fs : FileSystem) : Nat → Path → List String → Option Path
  | 0 => walk fs true fun _ _ _ _ => none
  | links + 1 => walk fs true fun base _ target rest =>
    let next := afterLink base target rest
    locateWithin fs links next.1 next.2

/-- The place to which a path leads, if something is stored there. -/
def locate? (fs : FileSystem) (p : Path) : Option Path := locateWithin fs maxLinks [] p

/-- The place reached if at most the given number of links is followed; further links and segments
that are not stored are taken as they are. -/
def resolveWithin (fs : FileSystem) : Nat → Path → List String → Option Path
  | 0 => walk fs false fun base name _ rest => some (base ++ name :: rest)
  | links + 1 => walk fs false fun base _ target rest =>
    let next := afterLink base target rest
    resolveWithin fs links next.1 next.2

/-- The place to which a path would lead, whether or not something is there. -/
def realPath (fs : FileSystem) (p : Path) : Path := (resolveWithin fs maxLinks [] p).getD p

/-! ## Reading -/

/-- What a path leads to. -/
def target? (fs : FileSystem) (p : Path) : Option Entry := (fs.locate? p).bind fs.storedAt?

/-- Whether the path leads to a file. -/
def isFile (fs : FileSystem) (p : Path) : Bool :=
  match fs.target? p with
  | some (.file _) => true
  | _ => false

/-- Whether the path leads to a directory. -/
def isDirectory (fs : FileSystem) (p : Path) : Bool :=
  match fs.target? p with
  | some .directory => true
  | _ => false

/-- The content of the file to which the path leads. -/
def content? (fs : FileSystem) (p : Path) : Option Content :=
  match fs.target? p with
  | some (.file content) => some content
  | _ => none

/-- The text of the file to which the path leads, if it is a text. -/
def readText? (fs : FileSystem) (p : Path) : Option (List Char) := (fs.content? p).bind (·.read?)

/-- The name under which a path is stored in the directory, if it is stored there. -/
def nameIn? (directory p : Path) : Option String :=
  if p.dropLast = directory then p.getLast? else none

/-- The names stored in the directory to which a path leads, in alphabetical order. -/
def names (fs : FileSystem) (p : Path) : List String :=
  match fs.locate? p with
  | some directory =>
    (fs.entries.filterMap fun e => nameIn? directory e.1).mergeSort fun a b => decide (a ≤ b)
  | none => []

/-! ## Change -/

/-- The file system with an entry stored under exactly this path. -/
def store (fs : FileSystem) (p : Path) (e : Entry) : FileSystem :=
  if fs.entries.any (·.1 == p) then ⟨fs.entries.map fun x => if x.1 == p then (p, e) else x⟩
  else ⟨fs.entries ++ [(p, e)]⟩

/-- The file system without what is stored under this path and below it. -/
def remove (fs : FileSystem) (p : Path) : FileSystem :=
  ⟨fs.entries.filter fun e => !p.isPrefixOf e.1⟩

/-- The file system with the directories on the way to a path, and the place of the last one;
nothing if a file or a link that leads nowhere stands in the way. -/
def makeDirectories? (fs : FileSystem) (p : Path) : Option (FileSystem × Path) :=
  p.foldl (fun acc segment => acc.bind fun (fs, base) =>
      match fs.locate? (base ++ [segment]) with
      | some place => if fs.storedAt? place = some .directory then some (fs, place) else none
      | none =>
        if fs.storedAt? (base ++ [segment]) = none then
          some (fs.store (base ++ [segment]) .directory, base ++ [segment])
        else none)
    (some (fs, []))

/-- The file system with an entry under a path, in a directory that is made if it is missing; a
link at the path gives way. -/
def put (fs : FileSystem) (p : Path) (e : Entry) : FileSystem :=
  match fs.makeDirectories? p.parent with
  | some (fs, directory) => fs.store (directory ++ [p.fileName]) e
  | none => fs

/-- The file system with a file under a path, in a directory that is made if it is missing; a link
at the path is followed. -/
def write (fs : FileSystem) (p : Path) (content : Content) : FileSystem :=
  match fs.makeDirectories? p.parent with
  | some (fs, directory) =>
    let place := directory ++ [p.fileName]
    fs.store ((fs.locate? place).getD place) (.file content)
  | none => fs

/-- The file system with a file under a path that leads nowhere; nothing if the place to which it
would lead is taken or its directory is missing. -/
def create? (fs : FileSystem) (p : Path) (content : Content) : Option FileSystem :=
  let place := fs.realPath p
  if fs.storedAt? place = none ∧ fs.storedAt? place.parent = some .directory then
    some (fs.store place (.file content))
  else none

/-- The file system with a text added at the end of a file, which is made if it is missing;
nothing if that cannot be done. -/
def append? (fs : FileSystem) (p : Path) (more : List Char) : Option FileSystem :=
  (fs.makeDirectories? p.parent).bind fun (fs, directory) =>
    let place := directory ++ [p.fileName]
    match fs.locate? place with
    | none => fs.create? place (.text more)
    | some found =>
      match fs.storedAt? found with
      | some (.file content) => some (fs.store found (.file (content.append more)))
      | _ => none

end FileSystem

end PlanAudit
