import PlanAudit.Text.Basic
import PlanAudit.Text.UnprintableTable

/-!
# Quoted text in messages

Messages show a piece of input between quotation marks, on one line and with every character
visible.

## Main definitions

* `hexDigits`: a code in lower-case hexadecimal digits, padded to a width
* `quoteMark`: single quotation marks, unless the text holds some and no double ones
* `quoted`: the text between quotation marks with its escapes
-/

namespace PlanAudit.Text

/-- The hexadecimal digit of a number below sixteen. -/
def hexDigit (n : Nat) : Char :=
  if n < 10 then Char.ofNat ('0'.toNat + n) else Char.ofNat ('a'.toNat + (n - 10))

/-- The last `width` hexadecimal digits of `n`. -/
def hexDigits : Nat → Nat → List Char
  | 0, _ => []
  | width + 1, n => hexDigits width (n / 16) ++ [hexDigit (n % 16)]

/-- A character that is shown as it is. -/
def isPrintable (c : Char) : Bool :=
  if c.toNat < 128 then 32 ≤ c.toNat && c.toNat < 127 else !inRanges unprintableRanges c

/-- The quotation mark that is put around the text. -/
def quoteMark (text : List Char) : Char :=
  if text.contains '\'' && !text.contains '"' then '"' else '\''

/-- A character as it appears between the quotation marks `mark`: the mark itself, the backslash
and what has no glyph are escaped, the latter by their code. -/
def escapedChar (mark c : Char) : List Char :=
  if c == mark || c == '\\' then ['\\', c]
  else if c == '\n' then ['\\', 'n']
  else if c == '\r' then ['\\', 'r']
  else if c == '\t' then ['\\', 't']
  else if isPrintable c then [c]
  else if c.toNat < 0x100 then '\\' :: 'x' :: hexDigits 2 c.toNat
  else if c.toNat < 0x10000 then '\\' :: 'u' :: hexDigits 4 c.toNat
  else '\\' :: 'U' :: hexDigits 8 c.toNat

/-- The text between quotation marks. -/
def quoted (s : String) : String :=
  let text := s.toList
  let mark := quoteMark text
  String.ofList (mark :: text.flatMap (escapedChar mark) ++ [mark])

end PlanAudit.Text
