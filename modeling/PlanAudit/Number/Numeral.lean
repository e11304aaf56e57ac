import PlanAudit.Text.Basic

/-!
# Numerals

A numeral is a whole number in decimal digits of any script, with an optional sign and with single
underscores between digits.

## Main definitions

* `ofNumeral?`: the whole number that a numeral writes
* `isNegativeNumeral`: whether a word is a negative number, possibly with a fraction
-/

namespace PlanAudit.Number

open PlanAudit.Text

/-- The values of the digits, of which each but the first may follow an underscore. -/
def numeralDigits? (afterDigit : Bool) : List Char → Option (List Nat)
  | [] => if afterDigit then some [] else none
  | c :: rest =>
    if c == '_' then if afterDigit then numeralDigits? false rest else none
    else
      match digitOf? c with
      | some d => (numeralDigits? true rest).map (d :: ·)
      | none => none

/-- The natural number that the digits write. -/
def ofNumeralDigits? (text : List Char) : Option Nat :=
  match numeralDigits? false text with
  | some digits =>
    if digits.length ≤ maxDigits then some (digits.foldl (fun n d => 10 * n + d) 0) else none
  | none => none

/-- The whole number that a numeral writes; white space around it does not count. -/
def ofNumeral? (s : String) : Option Int :=
  match strip s.toList with
  | '-' :: rest => (ofNumeralDigits? rest).map fun n => -(n : Int)
  | '+' :: rest => (ofNumeralDigits? rest).map fun n => (n : Int)
  | text => (ofNumeralDigits? text).map fun n => (n : Int)

/-- Whether a word is a minus sign with digits, of which some may stand after a point; a line feed
at its end does not count. -/
def isNegativeNumeral (word : List Char) : Bool :=
  let text := if word.getLast? == some '\n' then word.dropLast else word
  match text with
  | '-' :: digits =>
    match digits.dropWhile isDecimal with
    | [] => !digits.isEmpty
    | '.' :: fraction => !fraction.isEmpty && fraction.all isDecimal
    | _ => false
  | _ => false

end PlanAudit.Number
