import PlanAudit.CommandLine.Reply
import Std.Data.HashSet
import Std.Time

/-!
# The program

What the library needs of the machine is read here and handed to it as values: the files below the
current directory and below every path that the command line names, the variables that hold
settings, the input and the time.

## Main definitions

* `snapshot`: the files that a request may look at
* `main`: the program
-/

namespace PlanAudit.Program

/-- The entries that were read, with the paths under which they were looked for. -/
structure Snapshot where
  /-- The entries. -/
  entries : List (Path × Entry) := []
  /-- The paths. -/
  seen : Std.HashSet String := {}

/-- What is stored under a path whose directory is free of links. -/
def storedUnder (path : String) : IO (Option Entry) := do
  try
    let real ← IO.FS.realPath path
    if real.toString != path then
      return some (.link real.toString)
    match (← real.metadata).type with
    | .dir => return some .directory
    | .file => return some (.file (.ofBytes (← IO.FS.readBinFile path).toList))
    | _ => return none
  catch _ => return none

/-- The snapshot with what is stored under a path. -/
def Snapshot.add (s : Snapshot) (path : String) (entry : Entry) : Snapshot :=
  ⟨(Path.ofString path, entry) :: s.entries, s.seen.insert path⟩

/-- The snapshot with what is stored under a path and, if it is a directory, below it. -/
partial def Snapshot.addTree (s : Snapshot) (path : String) : IO Snapshot := do
  if s.seen.contains path then
    return s
  match ← storedUnder path with
  | none => return s
  | some (.link target) => (s.add path (.link target)).addTree target
  | some .directory =>
    (← (← IO.FS.realPath path).readDir).foldlM (fun s e => s.addTree e.path.toString)
      (s.add path .directory)
  | some file => return s.add path file

/-- The snapshot with the entries on the way along the segments, and the tree at their end. -/
def Snapshot.addAlong (s : Snapshot) (base : Path) : Path → IO Snapshot
  | [] => s.addTree base.toString
  | ".." :: rest => s.addAlong base.dropLast rest
  | name :: rest => do
    let path := base ++ [name]
    match ← storedUnder path.toString with
    | none => return s
    | some entry =>
      let place := path.toString
      let s := if s.seen.contains place || rest.isEmpty then s else s.add place entry
      match entry with
      | .link target => s.addAlong (.ofString target) rest
      | _ => s.addAlong path rest

/-- The files below the current directory and below the paths that words may name. -/
def snapshot (directory : Path) (words : List String) : IO FileSystem := do
  let s ← ({} : Snapshot).addAlong [] directory
  let s ← words.foldlM (fun s word => s.addAlong [] (directory.join word)) s
  return ⟨s.entries⟩

/-- The variables that the library looks at. -/
def environment : IO (List (String × String)) := do
  let names := "HOME" :: Settings.fieldNames.map fun name =>
    Text.upperCase (Workspace.settingPrefix ++ name)
  let values ← names.mapM fun name => do return (← IO.getEnv name).map fun value => (name, value)
  return values.filterMap id

/-- The words of the command line and the values in them, with the home directory for a tilde. -/
def namedPaths (home : String) (arguments : List String) : List String :=
  let values := arguments.filterMap fun (word : String) =>
    (CommandLine.splitSign? word.toList).map fun split => String.ofList split.2
  (arguments ++ values).filterMap fun word =>
    if word == "" || word == "/" then none
    else if Text.stringBegins "~" word then some (home ++ Text.dropString 1 word)
    else some word

/-- The time in the form of the report. -/
def currentTime : IO String := do
  let now := Std.Time.DateTime.ofTimestamp (← Std.Time.Timestamp.now) .UTC
  return now.format "uuuu-MM-dd'T'HH:mm:ss.SSSSSSxxx"

/-- All that is left of a stream, after what was read of it. -/
partial def readAll (stream : IO.FS.Stream) (read : ByteArray) : IO ByteArray := do
  let more ← stream.read 65536
  if more.isEmpty then return read else readAll stream (read ++ more)

/-- Carries out the command line. -/
def run (arguments : List String) : IO UInt32 := do
  let directory := Path.ofString (← IO.currentDir).toString
  let environment ← environment
  let home := (environment.lookup "HOME").getD "/"
  let files ← snapshot directory (namedPaths home arguments)
  let workspace : Workspace :=
    { files, directory, environment
      catchLog := (Path.ofString home).join ".planproof/catches.jsonl" }
  let wantsInput := match CommandLine.parse arguments with
    | .ok (.check c) => c.plan.getD "" == ""
    | _ => false
  let input ← if wantsInput then readAll (← IO.getStdin) .empty else pure .empty
  match CommandLine.reply workspace arguments (Content.ofBytes input.toList).readLenient
      (← currentTime) with
  | .error fault =>
    IO.eprintln ((fault.message?).getD "the file of settings is no text")
    return 1
  | .ok reply =>
    IO.print reply.output
    IO.eprint reply.errors
    if reply.server.isSome then
      IO.eprintln "planproof: tools are served by the program that embeds this library"
    return UInt32.ofNat reply.exitCode

end PlanAudit.Program

/-- The program. -/
def main (arguments : List String) : IO UInt32 := PlanAudit.Program.run arguments
