import PlanAudit.Fault
import PlanAudit.Text.Case

/-!
# The log

How much is written to the log is set once; libraries that write too much are quieted on that
occasion.

## Main definitions

* `LogLevel`: how grave a message is
* `LogWord`: the words for the levels
* `LogState`: what the log is set to
* `LogState.setUp`: the log is set to a level, unless it was set before

## Main results

* `LogState.setUp_of_configured`: a second setting changes nothing
-/

namespace PlanAudit

open Text

/-- How grave a message is. -/
inductive LogLevel where
  | notset
  | debug
  | info
  | warning
  | error
  | critical
  deriving DecidableEq, Repr

/-- The name of a level. -/
def LogLevel.label : LogLevel → String
  | notset => "NOTSET"
  | debug => "DEBUG"
  | info => "INFO"
  | warning => "WARNING"
  | error => "ERROR"
  | critical => "CRITICAL"

/-- A word for a level; two levels have two. -/
inductive LogWord where
  | critical
  | fatal
  | error
  | warn
  | warning
  | info
  | debug
  | notset
  deriving DecidableEq, Repr

namespace LogWord

/-- The word as it is written. -/
def label : LogWord → String
  | critical => "CRITICAL"
  | fatal => "FATAL"
  | error => "ERROR"
  | warn => "WARN"
  | warning => "WARNING"
  | info => "INFO"
  | debug => "DEBUG"
  | notset => "NOTSET"

/-- The level that a word stands for. -/
def level : LogWord → LogLevel
  | critical => .critical
  | fatal => .critical
  | error => .error
  | warn => .warning
  | warning => .warning
  | info => .info
  | debug => .debug
  | notset => .notset

/-- All words. -/
def all : List LogWord := [critical, fatal, error, warn, warning, info, debug, notset]

/-- The word that is written so, in letters of either case. -/
def ofText? (s : String) : Option LogWord := all.find? fun w => w.label == upperCase s

end LogWord

/-- What the log is set to. -/
structure LogState where
  /-- Whether it was set. -/
  configured : Bool := false
  /-- The level from which on messages are written. -/
  root : LogLevel := .warning
  /-- The level from which on messages of the quieted libraries are written. -/
  libraries : LogLevel := .notset
  deriving DecidableEq, Repr

/-- The libraries that write too much. -/
def quietedLibraries : List String := ["mcp", "fastmcp", "httpx"]

namespace LogState

/-- The log set to a level, unless it was set before.  A word that stands for no level is a fault,
after which the log counts as set. -/
def setUp (s : LogState) (word : String) : LogState × Except Fault Unit :=
  if s.configured then (s, .ok ())
  else
    match LogWord.ofText? word with
    | some w => (⟨true, w.level, .warning⟩, .ok ())
    | none => ({ s with configured := true }, .error (.unknownLevel word))

/-- A second setting changes nothing. -/
theorem setUp_of_configured {s : LogState} (h : s.configured = true) (word : String) :
    s.setUp word = (s, .ok ()) := by
  simp [setUp, h]

/-- After a setting, whatever the word, the log counts as set. -/
theorem configured_setUp (s : LogState) (word : String) :
    (s.setUp word).1.configured = true := by
  unfold setUp
  split
  · assumption
  · split <;> rfl

end LogState

end PlanAudit
