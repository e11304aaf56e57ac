import PlanAudit.Text.AlphabetTable

/-!
# Classes of characters

The classes that decide where a name ends, what is blank and where a line breaks.  They cover the
whole character set; the ASCII part is spelled out, so that it reduces without a table.

## Main definitions

* `isAlphanumeric`, `isWord`: letters, digits and numerals; the same with the underscore
* `isBlank`: white space
* `isLineBreak`: the characters that end a line of a text file
* `isWordAscii`, `isBlankAscii`: the same classes cut down to ASCII
* `digitOf?`: the value of a decimal digit, and `maxDigits`: the most digits of a whole number
-/

namespace PlanAudit.Text

/-- Whether the code point of `c` lies in one of the ranges. -/
def inRanges (ranges : List (Nat × Nat)) (c : Char) : Bool :=
  ranges.any fun r => r.1 ≤ c.toNat && c.toNat ≤ r.2

/-- A decimal digit of ASCII. -/
def isDigitAscii (c : Char) : Bool := '0' ≤ c && c ≤ '9'

/-- An upper-case letter of ASCII. -/
def isUpperAscii (c : Char) : Bool := 'A' ≤ c && c ≤ 'Z'

/-- A lower-case letter of ASCII. -/
def isLowerAscii (c : Char) : Bool := 'a' ≤ c && c ≤ 'z'

/-- A letter or digit of ASCII. -/
def isAlphanumericAscii (c : Char) : Bool := isDigitAscii c || isUpperAscii c || isLowerAscii c

/-- A letter, digit or underscore of ASCII. -/
def isWordAscii (c : Char) : Bool := isAlphanumericAscii c || c == '_'

/-- A letter, digit or numeral of any script. -/
def isAlphanumeric (c : Char) : Bool :=
  if c.toNat < 128 then isAlphanumericAscii c else inRanges alphanumericRanges c

/-- A character that a name may hold: a letter, digit or numeral of any script, or an underscore. -/
def isWord (c : Char) : Bool := isAlphanumeric c || c == '_'

/-- White space of ASCII without the separator controls: tab to carriage return, and the space. -/
def isBlankAscii (c : Char) : Bool := c == ' ' || ('\t' ≤ c && c ≤ '\r')

/-- White space beyond ASCII. -/
def blankRanges : List (Nat × Nat) :=
  [(0x85, 0x85), (0xA0, 0xA0), (0x1680, 0x1680), (0x2000, 0x200A), (0x2028, 0x2029),
    (0x202F, 0x202F), (0x205F, 0x205F), (0x3000, 0x3000)]

/-- White space: that of ASCII, the four separator controls, and the blanks of other blocks. -/
def isBlank (c : Char) : Bool :=
  if c.toNat < 128 then isBlankAscii c || ('\x1c' ≤ c && c ≤ '\x1f') else inRanges blankRanges c

/-- A character that ends a line: line feed, vertical tab, form feed, carriage return, three of the
separator controls, next line, and the line and paragraph separators. -/
def isLineBreak (c : Char) : Bool :=
  ('\n' ≤ c && c ≤ '\r') || ('\x1c' ≤ c && c ≤ '\x1e') || c == '\u0085' || c == '\u2028' ||
    c == '\u2029'

/-! ## Decimal digits

Every script with decimal digits has ten of them in a row, so that a table of zeros is enough. -/

/-- The code points of the zeros of the scripts beyond ASCII. -/
def decimalZeros : List Nat :=
  [0x0660, 0x06F0, 0x07C0, 0x0966, 0x09E6, 0x0A66, 0x0AE6, 0x0B66, 0x0BE6, 0x0C66, 0x0CE6,
    0x0D66, 0x0DE6, 0x0E50, 0x0ED0, 0x0F20, 0x1040, 0x1090, 0x17E0, 0x1810, 0x1946, 0x19D0,
    0x1A80, 0x1A90, 0x1B50, 0x1BB0, 0x1C40, 0x1C50, 0xA620, 0xA8D0, 0xA900, 0xA9D0, 0xA9F0,
    0xAA50, 0xABF0, 0xFF10, 0x104A0, 0x10D30, 0x11066, 0x110F0, 0x11136, 0x111D0, 0x112F0,
    0x11450, 0x114D0, 0x11650, 0x116C0, 0x11730, 0x118E0, 0x11950, 0x11C50, 0x11D50, 0x11DA0,
    0x16A60, 0x16AC0, 0x16B50, 0x1D7CE, 0x1D7D8, 0x1D7E2, 0x1D7EC, 0x1D7F6, 0x1E140, 0x1E2F0,
    0x1E950, 0x1FBF0]

/-- The value of a decimal digit of any script. -/
def digitOf? (c : Char) : Option Nat :=
  if c.toNat < 128 then if isDigitAscii c then some (c.toNat - '0'.toNat) else none
  else (decimalZeros.find? fun first => first ≤ c.toNat && c.toNat < first + 10).map (c.toNat - ·)

/-- Whether the character is a decimal digit of any script. -/
def isDecimal (c : Char) : Bool := (digitOf? c).isSome

/-- The number of digits of the longest whole number that is read. -/
def maxDigits : Nat := 4300

end PlanAudit.Text
