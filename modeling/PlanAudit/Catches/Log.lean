import PlanAudit.Catches.Entry
import PlanAudit.Json.Reader

/-!
# The catch log

A file with one entry on each line.  Lines that hold no entry are passed over.

## Main definitions

* `catchLine`: an entry as a line of the log
* `readCatchText`: the entries of a log
* `logCatch`: the file system after an entry is logged
* `readCatches`: the entries of a log file
-/

namespace PlanAudit

open Text

/-- An entry as a line of the log, with its line feed. -/
def catchLine (e : CatchEntry) : List Char := e.json.compact.toList ++ ['\n']

/-- The entry that a line holds, if it holds one. -/
def catchOfLine? (line : List Char) : Option CatchEntry :=
  (Json.parse .strict line).toOption.bind CatchEntry.ofJson?

/-- The entries of a log. -/
def readCatchText (text : List Char) : List CatchEntry := (splitLines text).filterMap catchOfLine?

/-- The file system after an entry is logged.  An entry without rejected references is not logged,
and neither is one that cannot be written. -/
def logCatch (e : CatchEntry) (log : Path) (files : FileSystem) : FileSystem :=
  if e.totalHallucinated = 0 then files else (files.append? log (catchLine e)).getD files

/-- The entries of a log file; there are none if it does not exist. -/
def readCatches (log : Path) (files : FileSystem) : Except Fault (List CatchEntry) :=
  match files.content? log with
  | none => .ok []
  | some content =>
    match content.read? with
    | some text => .ok (readCatchText text)
    | none => .error .undecodable

end PlanAudit
