import PlanAudit.Number.Numeral
import PlanAudit.Text.Quoted

/-!
# Words of a command line

The words of a command line are flags with and without values, and operands.  A long flag may be cut
short as long as it stays unambiguous; a value follows its flag as the next word, after an equality
sign, or glued to a flag of one letter; flags of one letter without values may be glued together.
After a word of two dashes there are only operands.

## Main definitions

* `Flag`: a flag that a command knows
* `UsageError`: what can be wrong with a command line
* `classify`: what a word is
* `events`: what the words of a command say, one after the other
* `settle`: the outcome of these events
-/

namespace PlanAudit.CommandLine

open Text

/-! ## Flags and mistakes -/

/-- What the value of a flag must be. -/
inductive ValueRule where
  /-- Any word. -/
  | any
  /-- One of the given words. -/
  | oneOf (words : List String)
  /-- A whole number. -/
  | whole
  deriving DecidableEq, Repr

/-- A flag that a command knows. -/
structure Flag where
  /-- The spellings of the flag. -/
  names : List String
  /-- The rule for its value, if it takes one. -/
  value : Option ValueRule := none
  deriving DecidableEq, Repr

/-- The flag in messages: all its spellings. -/
def Flag.title (f : Flag) : String := "/".intercalate f.names

/-- The flag that asks for help; every command knows it. -/
def helpFlag : Flag := { names := ["-h", "--help"] }

/-- What can be wrong with a command line. -/
inductive UsageError where
  /-- A flag that is cut too short. -/
  | ambiguous (word : String) (names : List String)
  /-- A flag without the value that it takes. -/
  | missingValue (title : String)
  /-- A flag with a value that takes none. -/
  | unusedValue (title value : String)
  /-- A word that is not among those allowed. -/
  | badChoice (title value : String) (choices : List String)
  /-- A word that is no whole number. -/
  | badWhole (title value : String)
  /-- Words that mean nothing here. -/
  | unrecognized (words : List String)
  deriving DecidableEq, Repr

/-- What is said about a mistake. -/
def UsageError.message : UsageError → String
  | ambiguous word names => "ambiguous option: " ++ word ++ " could match " ++ commaList names
  | missingValue title => "argument " ++ title ++ ": expected one argument"
  | unusedValue title value =>
    "argument " ++ title ++ ": ignored explicit argument " ++ quoted value
  | badChoice title value choices =>
    "argument " ++ title ++ ": invalid choice: " ++ quoted value ++ " (choose from " ++
      commaList (choices.map quoted) ++ ")"
  | badWhole title value => "argument " ++ title ++ ": invalid int value: " ++ quoted value
  | unrecognized words => "unrecognized arguments: " ++ " ".intercalate words

/-! ## What a word is -/

/-- What a word is. -/
inductive WordKind where
  /-- No flag. -/
  | operand
  /-- The two dashes after which there are only operands. -/
  | terminator
  /-- A flag in one of its spellings, with the text that is attached to it. -/
  | flag (f : Flag) (name : String) (attached : Option (List Char))
  /-- A flag that the command does not know. -/
  | unknown
  deriving DecidableEq, Repr

/-- The spellings of the flags, in order. -/
def spellings (flags : List Flag) : List (String × Flag) :=
  flags.flatMap fun f => f.names.map fun name => (name, f)

/-- The word before and after its first equality sign, if it has one. -/
def splitSign? (word : List Char) : Option (List Char × List Char) :=
  match word.dropWhile (· != '=') with
  | _ :: after => some (word.takeWhile (· != '='), after)
  | [] => none

/-- The spellings that a word may be meant for, with what is attached to them: those that it cuts
short, or the flag of one letter that it begins with. -/
def candidates (flags : List Flag) (word : List Char) :
    List (Flag × String × Option (List Char)) :=
  let begun (start : List Char) (attached : Option (List Char)) :=
    (spellings flags).filterMap fun (name, f) =>
      if beginsWith start name.toList then some (f, name, attached) else none
  if beginsWith ['-', '-'] word then
    match splitSign? word with
    | some (start, value) => begun start (some value)
    | none => begun word none
  else
    (spellings flags).filterMap fun (name, f) =>
      if name.toList = word.take 2 then some (f, name, some (word.drop 2))
      else if beginsWith word name.toList then some (f, name, none)
      else none

/-- What a word that begins with a dash is if it is no spelling of a flag. -/
def classifyOther (flags : List Flag) (word : String) : Except UsageError WordKind :=
  match candidates flags word.toList with
  | [(f, name, attached)] => .ok (.flag f name attached)
  | [] =>
    if Number.isNegativeNumeral word.toList || word.toList.contains ' ' then .ok .operand
    else .ok .unknown
  | several => .error (.ambiguous word (several.map (·.2.1)))

/-- The flag that the word spells out, possibly with a value after an equality sign. -/
def spelledOut? (flags : List Flag) (word : String) : Option WordKind :=
  match (spellings flags).lookup word with
  | some f => some (.flag f word none)
  | none =>
    (splitSign? word.toList).bind fun (start, value) =>
      let name := String.ofList start
      ((spellings flags).lookup name).map fun f => .flag f name (some value)

/-- What a word is. -/
def classify (flags : List Flag) (word : String) : Except UsageError WordKind :=
  if !stringBegins "-" word || word == "-" then .ok .operand
  else
    match spelledOut? flags word with
    | some kind => .ok kind
    | none => classifyOther flags word

/-- The words with what they are. -/
def classifyAll (flags : List Flag) : List String → Except UsageError (List (String × WordKind))
  | [] => .ok []
  | word :: rest =>
    if word == "--" then .ok ((word, .terminator) :: rest.map fun w => (w, .operand))
    else
      (classify flags word).bind fun kind =>
        (classifyAll flags rest).map fun others => (word, kind) :: others

/-! ## What the words say -/

/-- What some words of a command say. -/
inductive Event where
  /-- A flag is set. -/
  | set (f : Flag) (value : Option String)
  /-- A word means nothing here. -/
  | extra (word : String)
  /-- The words from here on are for a command of their own. -/
  | command (words : List String)
  /-- There is a mistake, after which nothing counts. -/
  | mistake (e : UsageError)
  deriving DecidableEq, Repr

/-- Why the value is refused for the flag, if it is. -/
def refusedValue? (f : Flag) (value : String) : Option UsageError :=
  match f.value with
  | some (.oneOf words) =>
    if words.contains value then none else some (.badChoice f.title value words)
  | some .whole =>
    if (Number.ofNumeral? value).isSome then none else some (.badWhole f.title value)
  | _ => none

/-- A flag is set to a value, or the value is refused. -/
def setTo (f : Flag) (value : String) : Event :=
  match refusedValue? f value with
  | some e => .mistake e
  | none => .set f (some value)

/-- The last part of a word of flags. -/
inductive LastPart where
  /-- A flag without value. -/
  | switch (f : Flag)
  /-- A flag with its value. -/
  | valued (f : Flag) (value : List Char)
  /-- A flag whose value is the next word. -/
  | wanting (f : Flag)
  deriving DecidableEq, Repr

/-- Whether the spelling is that of a flag of one letter. -/
def isShort (name : String) : Bool := !stringBegins "--" name

/-- A flag to which nothing is attached. -/
def bare (f : Flag) : LastPart := if f.value.isSome then .wanting f else .switch f

/-- The flags without values and the last part of a word with attached text.  What is attached to a
flag of one letter without value must be such flags in turn. -/
def unglue (flags : List Flag) (f : Flag) (name : String) (text : List Char) :
    Except UsageError (List Flag × LastPart) :=
  if f.value.isSome then .ok ([], .valued f text)
  else
    match text with
    | [] => .error (.unusedValue f.title "")
    | c :: rest =>
      let next := String.ofList ['-', c]
      match (if isShort name then (spellings flags).lookup next else none) with
      | none => .error (.unusedValue f.title (String.ofList text))
      | some g =>
        if rest.isEmpty then .ok ([f], bare g)
        else (unglue flags g next rest).map fun (switches, last) => (f :: switches, last)

/-- The flags without values and the last part of a word. -/
def parts (flags : List Flag) (f : Flag) (name : String) :
    Option (List Char) → Except UsageError (List Flag × LastPart)
  | none => .ok ([], bare f)
  | some text => unglue flags f name text

/-- What the words say.  Where `commands` is set, the first operand names a command and takes all
that follows. -/
def events (flags : List Flag) (commands : Bool) : List (String × WordKind) → List Event
  | [] => []
  | (word, .operand) :: rest =>
    if commands then [.command (word :: rest.map (·.1))]
    else .extra word :: events flags commands rest
  | (word, .terminator) :: rest =>
    if commands && !rest.isEmpty then [.command (word :: rest.map (·.1))]
    else (word :: rest.map (·.1)).map .extra
  | (word, .unknown) :: rest => .extra word :: events flags commands rest
  | (_, .flag f name attached) :: rest =>
    match parts flags f name attached with
    | .error e => [.mistake e]
    | .ok (switches, last) =>
      let before := switches.map fun g => Event.set g none
      match last, rest with
      | .switch g, rest => before ++ .set g none :: events flags commands rest
      | .valued g value, rest =>
        before ++ setTo g (String.ofList value) :: events flags commands rest
      | .wanting g, (value, .operand) :: rest =>
        before ++ setTo g value :: events flags commands rest
      | .wanting g, _ => [.mistake (.missingValue g.title)]

/-! ## The outcome -/

/-- Why a command line is not carried out. -/
inductive Stop where
  /-- It asks for help. -/
  | help
  /-- It holds a mistake. -/
  | mistake (e : UsageError)
  deriving DecidableEq, Repr

/-- What the words of a command come to. -/
structure Settled where
  /-- The flags that are set, with their values, in order. -/
  set : List (Flag × Option String) := []
  /-- The words that mean nothing. -/
  extras : List String := []
  /-- The words for a command of their own. -/
  command : Option (List String) := none
  deriving DecidableEq, Repr

/-- The outcome of events: up to a request for help or a mistake, whichever comes first. -/
def settle : List Event → Except Stop Settled
  | [] => .ok {}
  | .mistake e :: _ => .error (.mistake e)
  | .set f value :: rest =>
    if f = helpFlag then .error .help
    else (settle rest).map fun s => { s with set := (f, value) :: s.set }
  | .extra word :: rest => (settle rest).map fun s => { s with extras := word :: s.extras }
  | .command words :: rest => (settle rest).map fun s => { s with command := some words }

/-- What the words of a command come to. -/
def readWords (flags : List Flag) (commands : Bool) (words : List String) : Except Stop Settled :=
  match classifyAll flags words with
  | .error e => .error (.mistake e)
  | .ok kinds => settle (events flags commands kinds)

/-- The last value that a flag is set to. -/
def Settled.valueOf? (s : Settled) (f : Flag) : Option String :=
  (s.set.reverse.lookup f).bind id

/-- All values that a flag is set to. -/
def Settled.valuesOf (s : Settled) (f : Flag) : List String :=
  s.set.filterMap fun x => if x.1 = f then x.2 else none

/-- Whether a flag is set. -/
def Settled.has (s : Settled) (f : Flag) : Bool := s.set.any (·.1 == f)

end PlanAudit.CommandLine
