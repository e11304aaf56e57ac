import PlanAudit.Text.Quoted

/-!
# Faults

A checker never fails for want of evidence: it reports that it does not apply.  What remains are the
faults of this module.

## Main definitions

* `Fault`: what can go wrong
* `Fault.message?`: the text that a fault is reported with, if it has one
-/

namespace PlanAudit

open Text

/-- Why a setting is refused. -/
inductive Refusal where
  /-- A word that is no truth value. -/
  | noTruthWord
  /-- A value that is no truth value. -/
  | noTruthValue
  /-- A word that is no whole number. -/
  | noNumberWord
  /-- A value that is no whole number. -/
  | noNumber
  /-- A number with a fraction. -/
  | fraction
  /-- A number that is too large. -/
  | tooLarge
  /-- A number that is infinite or no number at all. -/
  | notFinite
  /-- A value that is no text. -/
  | noText
  /-- A value that is no list. -/
  | noList
  /-- A value that is no path. -/
  | noPath
  /-- A list that is written wrongly. -/
  | malformedList
  /-- A value that breaks a rule, which is stated. -/
  | rule (text : String)
  deriving DecidableEq, Repr

/-- A refused setting. -/
structure Problem where
  /-- The name of the setting and, for lists, the position in it. -/
  place : List String
  /-- Why it is refused. -/
  refusal : Refusal
  deriving DecidableEq, Repr

/-- The word for a reason to refuse a setting, with the rule where one is stated. -/
def Refusal.label : Refusal → String
  | noTruthWord => "bool_parsing"
  | noTruthValue => "bool_type"
  | noNumberWord => "int_parsing"
  | noNumber => "int_type"
  | fraction => "int_from_float"
  | tooLarge => "int_parsing_size"
  | notFinite => "finite_number"
  | noText => "string_type"
  | noList => "list_type"
  | noPath => "path_type"
  | malformedList => "value_error"
  | rule text => "value_error|" ++ text

/-- A refused setting in one line. -/
def Problem.line (p : Problem) : String := ".".intercalate p.place ++ "|" ++ p.refusal.label

/-- What can go wrong. -/
inductive Fault where
  /-- A slice is asked for with a text that is no opening bracket. -/
  | unknownBracket (opener : String)
  /-- A line of an ignore file that is no pattern. -/
  | ignoreLine (line : String)
  /-- A range of characters whose end comes before its start. -/
  | emptyRange
  /-- A file that must be a text and is none. -/
  | undecodable
  /-- A manifest with a whole number of more digits than are read. -/
  | tooManyDigits (count : Nat)
  /-- A checker is entered under an identifier that is taken. -/
  | duplicateChecker (id : String)
  /-- No checker has the identifier. -/
  | unknownChecker (id : String)
  /-- No category has the name. -/
  | unknownCategory (label : String)
  /-- A rejected reference has no category. -/
  | missingCategory
  /-- A level of the log that does not exist. -/
  | unknownLevel (name : String)
  /-- Settings that are refused. -/
  | refused (problems : List Problem)
  deriving DecidableEq, Repr

/-- The text that a fault is reported with, if it has one. -/
def Fault.message? : Fault → Option String
  | unknownBracket opener => some (quoted opener)
  | ignoreLine line => some ("Invalid git pattern: " ++ quoted line)
  | emptyRange => none
  | undecodable => none
  | tooManyDigits _ => none
  | duplicateChecker id => some ("checker already registered: " ++ id)
  | unknownChecker id => some ("unknown checker: " ++ id)
  | unknownCategory _ => none
  | missingCategory => some "category|enum"
  | unknownLevel _ => none
  | refused problems => some ("; ".intercalate (problems.map Problem.line))

end PlanAudit
