import PlanAudit.Json.Reader
import PlanAudit.Number.Whole
import PlanAudit.Settings.Basic

/-!
# Values of settings

Each setting is read from a JSON value.  What people write in a variable is a string, so every
setting can be read from a string, too.  All refused settings are reported together, in the order
of the settings.

## Main definitions

* `truthOf`, `wholeOf`, `listOf`, `levelOf`, `pathOf`: the value of a setting
* `settingsOf`: the settings of given values
-/

namespace PlanAudit.Settings

open Text

/-! ## Single values -/

/-- The words for yes, in letters of either case. -/
def yesWords : List String := ["1", "t", "y", "on", "yes", "true"]

/-- The words for no, in letters of either case. -/
def noWords : List String := ["0", "f", "n", "no", "off", "false"]

/-- The string with the letters of ASCII in lower case. -/
def lowerAscii (s : String) : String :=
  String.ofList (s.toList.map fun c => if isUpperAscii c then Char.ofNat (c.toNat + 32) else c)

/-- The truth value of a word. -/
def truthOfWord (s : String) : Except Refusal Bool :=
  if yesWords.contains (lowerAscii s) then .ok true
  else if noWords.contains (lowerAscii s) then .ok false
  else .error .noTruthWord

/-- The truth value of a whole number; others than 0 and 1 are refused, and those beyond 64 bits
like any other value that is no truth value. -/
def truthOfWhole (n : Int) : Except Refusal Bool :=
  if n = 1 then .ok true
  else if n = 0 then .ok false
  else if -(Number.fractionBound : Int) ≤ n ∧ n < Number.fractionBound then .error .noTruthWord
  else .error .noTruthValue

/-- A truth value: one itself, a word for one, or one of the numbers 0 and 1. -/
def truthOf : Json → Except Refusal Bool
  | .bool b => .ok b
  | .string s => truthOfWord s
  | .number n =>
    match Number.ofJsonNumber n with
    | .ok n => truthOfWhole n
    | .error _ => .error .noTruthValue
  | _ => .error .noTruthValue

/-- Why a number is refused that is not whole. -/
def refusalOf : Number.NotWhole → Refusal
  | .noNumber => .noNumberWord
  | .fraction => .fraction
  | .tooLarge => .tooLarge
  | .notFinite => .notFinite

/-- A whole number: one itself, a word for one, or a truth value. -/
def wholeOf : Json → Except Refusal Int
  | .number n => (Number.ofJsonNumber n).mapError refusalOf
  | .bool b => .ok (if b then 1 else 0)
  | .string s => (Number.ofWord s.toList).mapError refusalOf
  | _ => .error .noNumber

/-- A string. -/
def stringOf : Json → Except Refusal String
  | .string s => .ok s
  | _ => .error .noText

/-- A level of the log. -/
def levelOf (j : Json) : Except Refusal LogWord :=
  (stringOf j).bind fun s =>
    match LogWord.ofText? s with
    | some w => .ok w
    | none => .error (.rule ("unknown log level: " ++ s))

/-- A path. -/
def pathOf : Json → Except Refusal String
  | .string s => .ok s
  | _ => .error .noPath

/-- A depth that is at least one. -/
structure Depth where
  /-- The number of levels. -/
  val : Int
  /-- It is positive. -/
  one_le : 1 ≤ val

/-- The depth that a value stands for. -/
def depthOf (j : Json) : Except Refusal Depth :=
  (wholeOf j).bind fun n =>
    if h : 1 ≤ n then .ok ⟨n, h⟩ else .error (.rule "max_scan_depth must be at least 1")

/-! ## Lists -/

/-- The items of a list; all that are no strings are reported. -/
def itemsOf (place : List String) : Nat → List Json → Except (List Problem) (List String)
  | _, [] => .ok []
  | n, item :: rest =>
    match stringOf item, itemsOf place (n + 1) rest with
    | .ok s, .ok others => .ok (s :: others)
    | .ok _, .error problems => .error problems
    | .error r, .ok _ => .error [⟨place ++ [toString n], r⟩]
    | .error r, .error problems => .error (⟨place ++ [toString n], r⟩ :: problems)

/-- What is said of a whole number that has too many digits. -/
def tooManyDigits (count : Nat) : String :=
  "Exceeds the limit (" ++ toString maxDigits ++
    " digits) for integer string conversion: value has " ++ toString count ++
    " digits; use sys.set_int_max_str_digits() to increase the limit"

/-- Why a word for a list is refused that is no JSON text. -/
def refusalOfText : JsonFault → Refusal
  | .malformed => .malformedList
  | .tooManyDigits count => .rule (tooManyDigits count)

/-- What a word for a list stands for: a JSON text where it begins with a bracket, and parts between
commas otherwise. -/
def listOfWord (s : String) : Except Refusal Json :=
  let text := strip s.toList
  if text.head? == some '[' then
    (Json.parse .lenient text).mapError refusalOfText
  else
    let parts := (commaParts s.toList).filter (!·.isEmpty)
    .ok (.array (parts.map fun p => .string (String.ofList p)))

/-- A list of strings: one itself, or a word for one. -/
def listOf (place : List String) (j : Json) : Except (List Problem) (List String) :=
  let read : Except Refusal Json :=
    match j with
    | .string s => listOfWord s
    | other => .ok other
  match read with
  | .error r => .error [⟨place, r⟩]
  | .ok (.array items) => itemsOf place 0 items
  | .ok _ => .error [⟨place, .noList⟩]

/-! ## All settings -/

/-- The values given for settings, by name; the first one counts. -/
abbrev Given := List (String × Json)

/-- A value, or all problems on the way to it. -/
abbrev Checked (α : Type) := Except (List Problem) α

/-- The function applied to the value, if there are problems with neither. -/
def Checked.apply {α β : Type} : Checked (α → β) → Checked α → Checked β
  | .ok f, .ok a => .ok (f a)
  | .ok _, .error problems => .error problems
  | .error problems, .ok _ => .error problems
  | .error problems, .error more => .error (problems ++ more)

/-- The value of a setting, or its default if it is not given. -/
def readField {α : Type} (given : Given) (name : String) (default : α)
    (read : Json → Except Refusal α) : Checked α :=
  match given.lookup name with
  | none => .ok default
  | some j => (read j).mapError fun r => [⟨[name], r⟩]

/-- The list of a setting, or its default if it is not given. -/
def readList (given : Given) (name : String) (default : List String) : Checked (List String) :=
  match given.lookup name with
  | none => .ok default
  | some j => listOf [name] j

/-- The names of the settings, in order. -/
def fieldNames : List String :=
  ["log_level", "include_experimental", "allowed_new_paths", "max_scan_depth", "skip_directories",
    "log_catches", "catches_file"]

/-- The settings of given values; the others have their defaults. -/
def settingsOf (given : Given) : Except Fault Settings :=
  let defaults : Settings := {}
  let make (level : LogWord) (experimental : Bool) (allowed : List String) (depth : Depth)
      (skipped : List String) (log : Bool) (file : Option String) : Settings :=
    ⟨level, experimental, allowed, depth.val, depth.one_le, skipped, log, file⟩
  let start : Checked _ := .ok make
  ((((((((start.apply
    (readField given "log_level" defaults.logLevel levelOf)).apply
    (readField given "include_experimental" defaults.includeExperimental truthOf)).apply
    (readList given "allowed_new_paths" defaults.allowedNew)).apply
    (readField given "max_scan_depth"
      ⟨defaults.maxScanDepth, defaults.one_le_maxScanDepth⟩ depthOf)).apply
    (readList given "skip_directories" defaults.skipDirectories)).apply
    (readField given "log_catches" defaults.logCatches truthOf)).apply
    (readField given "catches_file" defaults.catchesFile fun j => (pathOf j).map some))
    ).mapError .refused

end PlanAudit.Settings
