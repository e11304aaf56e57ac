import PlanAudit.Json.Reader
import PlanAudit.Number.Binary

/-!
# Whole numbers in words and in JSON

People write whole numbers with a sign, with zeros in front, with underscores between digits, and
with a fraction of zeros.  All of these are read here; among the zeros in front there may even be a
minus sign after the first.  A number must not have too many digits.

## Main definitions

* `NotWhole`: why something is not taken for a whole number
* `ofWord`: the whole number that a word writes
* `ofJsonNumber`: the whole number that a JSON number is
-/

namespace PlanAudit.Number

open PlanAudit.Text

/-- White space around a number: all but the separator controls. -/
def isSpaceAround (c : Char) : Bool := isBlankAscii c || inRanges blankRanges c

/-- The text without white space at both ends. -/
def trimSpace (text : List Char) : List Char :=
  dropEndWhile isSpaceAround (text.dropWhile isSpaceAround)

/-- The natural number that digits write; the first is a zero only if it stands alone. -/
def ofPlainDigits? (digits : List Char) : Option Nat :=
  if digits.isEmpty || !digits.all isDigitAscii || (digits.head? == some '0' && digits.length > 1)
  then none
  else some (Json.ofDigits digits)

/-- The whole number that digits write, with a minus sign where it is negative. -/
def ofSignedDigits? : List Char → Option Int
  | '-' :: digits => (ofPlainDigits? digits).map fun n => -(n : Int)
  | digits => (ofPlainDigits? digits).map fun n => (n : Int)

/-- Whether the text has a minus sign in front, and the text without its sign; a minus sign must not
follow a plus sign. -/
def signAndRest? : List Char → Option (Bool × List Char)
  | '+' :: '-' :: _ => none
  | '+' :: rest => some (false, rest)
  | '-' :: rest => some (true, rest)
  | text => some (false, text)

/-- What is left after zeros and underscores: from the next digit or minus sign on, or from the last
character before a point or before the end. -/
def afterZeros? (last : Char) : List Char → Option (List Char)
  | [] => some [last]
  | c :: rest =>
    if c == '0' || c == '_' then afterZeros? c rest
    else if isDigitAscii c || c == '-' then some (c :: rest)
    else if c == '.' then some (last :: c :: rest)
    else none

/-- The text without zeros in front, of which one stays where nothing else is left. -/
def withoutZeros? : List Char → Option (List Char)
  | [] => none
  | c :: rest =>
    if c == '0' then afterZeros? '0' rest
    else if isDigitAscii c || c == '-' then some (c :: rest)
    else none

/-- The text without a point and zeros after it, if nothing else follows the point. -/
def withoutFraction (text : List Char) : List Char :=
  let whole := text.takeWhile (· != '.')
  let fraction := text.drop (whole.length + 1)
  if !fraction.isEmpty && fraction.all (· == '0') then whole else text

/-- Whether every underscore stands between two other characters. -/
def underscoresBetween (text : List Char) : Bool :=
  text.head? != some '_' && text.getLast? != some '_' && !contains ['_', '_'] text

/-- The text without its underscores, if each stands between two other characters. -/
def withoutUnderscores (text : List Char) : List Char :=
  if underscoresBetween text then text.filter (· != '_') else text

/-- The digits that a word stands for, with a minus sign where it has one; other characters that the
word must not have may still be among them. -/
def signedDigits? (word : List Char) : Option (List Char) :=
  (signAndRest? (trimSpace word)).bind fun (negative, text) =>
    (withoutZeros? text).map fun text =>
      let digits := withoutUnderscores (withoutFraction text)
      if negative then '-' :: digits else digits

/-- The number of digits at the start of a text; a minus sign before them does not count. -/
def digitCount : List Char → Nat
  | '-' :: rest => (rest.takeWhile isDigitAscii).length
  | text => (text.takeWhile isDigitAscii).length

/-- Why something is not taken for a whole number. -/
inductive NotWhole where
  /-- It is a word that writes none. -/
  | noNumber
  /-- It has a fraction. -/
  | fraction
  /-- It has too many digits, or it is written as a fraction and too large. -/
  | tooLarge
  /-- It is infinite or no number at all. -/
  | notFinite
  deriving DecidableEq, Repr

/-- The whole number that a word writes. -/
def ofWord (word : List Char) : Except NotWhole Int :=
  match signedDigits? word with
  | none => .error .noNumber
  | some digits =>
    if maxDigits < digitCount digits then .error .tooLarge
    else
      match ofSignedDigits? digits with
      | some n => .ok n
      | none => .error .noNumber

/-- A bound for whole numbers that are written as decimal fractions. -/
def fractionBound : Nat := Nat.pow 2 63

/-- The whole number that a decimal fraction is, after it is rounded to a binary fraction. -/
def ofDecimal (mantissa exponent : Int) : Except NotWhole Int :=
  match Binary.ofDecimal? mantissa.natAbs exponent with
  | none => .error .notFinite
  | some b =>
    match b.whole? with
    | none => .error .fraction
    | some n =>
      if n < fractionBound then .ok (if mantissa < 0 then -n else n) else .error .tooLarge

/-- The whole number that a JSON number is. -/
def ofJsonNumber : JsonNumber → Except NotWhole Int
  | .integer n => .ok n
  | .decimal mantissa exponent => ofDecimal mantissa exponent
  | .notANumber | .infinite _ => .error .notFinite

/-- The whole number that a JSON value stands for: a number, a truth value or a word. -/
def ofJson? : Json → Option Int
  | .number n => (ofJsonNumber n).toOption
  | .bool b => some (if b then 1 else 0)
  | .string s => (ofWord s.toList).toOption
  | _ => none

end PlanAudit.Number
