import PlanAudit.Json.Basic

/-!
# Reading JSON

A reader of JSON texts.  Beyond the standard it accepts the words `NaN`, `Infinity` and
`-Infinity`.  Control characters inside strings are refused, and so is anything after the value but
white space.

There are two dialects.  The lenient one is for what people write.  The strict one is for records,
whose every member is looked at: it keeps repeated members, and it refuses characters that are only
half written and values that are nested too deep.

## Main definitions

* `Json.Dialect`: the dialects
* `JsonFault`: why a text is refused
* `Json.parse`: the value of a text
-/

namespace PlanAudit

/-- Why a text is refused. -/
inductive JsonFault where
  /-- It is no JSON text. -/
  | malformed
  /-- It holds a whole number of more digits than are read. -/
  | tooManyDigits (count : Nat)
  deriving DecidableEq, Repr

namespace Json

open PlanAudit.Text

/-! ## Dialects -/

/-- How a text is read. -/
inductive Dialect where
  /-- Half of a pair of codes is the replacement character, a repeated member takes its last value,
  and values may be nested at will. -/
  | lenient
  /-- Half of a pair of codes is refused, repeated members are all kept, and values may be nested up
  to a bound. -/
  | strict
  deriving DecidableEq, Repr

/-- The character for half of a pair of codes. -/
def Dialect.halfPair : Dialect → Except JsonFault Char
  | lenient => .ok '\uFFFD'
  | strict => .error .malformed

/-- The object of the members in the order read. -/
def Dialect.objectOf : Dialect → List (String × Json) → Json
  | lenient, members => ofMembers members
  | strict, members => object members

/-- How deep arrays and objects may be nested in a record; those without content do not count. -/
def maxDepth : Nat := 200

/-- Whether there may be so many arrays and objects around each other. -/
def Dialect.allowsDepth : Dialect → Nat → Bool
  | lenient, _ => true
  | strict, depth => depth ≤ maxDepth

/-- The fault of a number with so many digits before its point, if there are too many of them.  In
records, numbers with a fraction or an exponent are held to the bound for whole numbers, too. -/
def Dialect.digitFault? (d : Dialect) (isWhole : Bool) (digits : Nat) : Option JsonFault :=
  if (isWhole || d = strict) && maxDigits < digits then some (.tooManyDigits digits) else none

/-- White space between the tokens of a JSON text. -/
def isSpace (c : Char) : Bool := c == ' ' || c == '\t' || c == '\n' || c == '\r'

/-- The text without white space at its start. -/
def skipSpace (text : List Char) : List Char := text.dropWhile isSpace

/-! ## Numbers -/

/-- The value of a decimal digit. -/
def digitValue (c : Char) : Nat := c.toNat - '0'.toNat

/-- The number that the digits write. -/
def ofDigits (digits : List Char) : Nat := digits.foldl (fun n c => 10 * n + digitValue c) 0

/-- The digits at the start of a text, and the text after them. -/
def spanDigits (text : List Char) : List Char × List Char :=
  (text.takeWhile isDigitAscii, text.dropWhile isDigitAscii)

/-- The digits of the integral part of a number: a zero, or digits that do not start with one. -/
def integralPart? : List Char → Option (List Char × List Char)
  | '0' :: rest => some (['0'], rest)
  | text =>
    match spanDigits text with
    | ([], _) => none
    | (digits, rest) => some (digits, rest)

/-- The digits after a decimal point, and the text after them; none if there is no fraction. -/
def fractionPart (text : List Char) : List Char × List Char :=
  match text with
  | '.' :: after =>
    match spanDigits after with
    | ([], _) => ([], text)
    | (digits, rest) => (digits, rest)
  | _ => ([], text)

/-- The value of an exponent, and the text after it; nothing if there is no exponent. -/
def exponentPart (text : List Char) : Option Int × List Char :=
  match text with
  | e :: after =>
    if e == 'e' || e == 'E' then
      let (negative, digitsFrom) :=
        match after with
        | '-' :: rest => (true, rest)
        | '+' :: rest => (false, rest)
        | _ => (false, after)
      match spanDigits digitsFrom with
      | ([], _) => (none, text)
      | (digits, rest) =>
        let n : Int := ofDigits digits
        (some (if negative then -n else n), rest)
    else (none, text)
  | [] => (none, text)

/-- The number at the start of a text without sign. -/
def readMagnitude (d : Dialect) (negative : Bool) (text : List Char) :
    Except JsonFault (JsonNumber × List Char) :=
  match integralPart? text with
  | none => .error .malformed
  | some (whole, afterWhole) =>
    let (fraction, afterFraction) := fractionPart afterWhole
    let (exponent, rest) := exponentPart afterFraction
    let isWhole := fraction.isEmpty && exponent.isNone
    match d.digitFault? isWhole whole.length with
    | some fault => .error fault
    | none =>
      let magnitude : Int := ofDigits (whole ++ fraction)
      let mantissa := if negative then -magnitude else magnitude
      if isWhole then .ok (.integer mantissa, rest)
      else .ok (.decimal mantissa (exponent.getD 0 - fraction.length), rest)

/-! ## Strings -/

/-- The value of a hexadecimal digit. -/
def hexValue? (c : Char) : Option Nat :=
  if isDigitAscii c then some (digitValue c)
  else if 'a' ≤ c && c ≤ 'f' then some (c.toNat - 'a'.toNat + 10)
  else if 'A' ≤ c && c ≤ 'F' then some (c.toNat - 'A'.toNat + 10)
  else none

/-- The code written by four hexadecimal digits at the start of a text. -/
def readCode? : List Char → Option (Nat × List Char)
  | a :: b :: c :: d :: rest => do
    let a ← hexValue? a
    let b ← hexValue? b
    let c ← hexValue? c
    let d ← hexValue? d
    some (((a * 16 + b) * 16 + c) * 16 + d, rest)
  | _ => none

/-- Whether the code is the first of a pair that stands for one character. -/
def isHighHalf (n : Nat) : Bool := 0xD800 ≤ n && n < 0xDC00

/-- Whether the code is the second of a pair that stands for one character. -/
def isLowHalf (n : Nat) : Bool := 0xDC00 ≤ n && n < 0xE000

/-- The character written after a backslash and `u`, and the text after it.  Two codes may stand
for one character. -/
def readEscapedCode (d : Dialect) (text : List Char) : Except JsonFault (Char × List Char) :=
  match readCode? text with
  | none => .error .malformed
  | some (code, rest) =>
    if isHighHalf code then
      match rest with
      | '\\' :: 'u' :: after =>
        match readCode? after with
        | none => .error .malformed
        | some (low, rest') =>
          if isLowHalf low then
            .ok (Char.ofNat (0x10000 + (code - 0xD800) * 0x400 + (low - 0xDC00)), rest')
          else d.halfPair.map fun c => (c, rest)
      | _ => d.halfPair.map fun c => (c, rest)
    else if isLowHalf code then d.halfPair.map fun c => (c, rest)
    else .ok (Char.ofNat code, rest)

/-- The character that a backslash and `c` stand for. -/
def simpleEscape? (c : Char) : Option Char :=
  match c with
  | '"' => some '"'
  | '\\' => some '\\'
  | '/' => some '/'
  | 'b' => some '\x08'
  | 'f' => some '\x0c'
  | 'n' => some '\n'
  | 'r' => some '\r'
  | 't' => some '\t'
  | _ => none

/-- The rest of a string after its opening quotation mark, and the text after its closing one. -/
def readString (d : Dialect) : Nat → List Char → Except JsonFault (List Char × List Char)
  | 0, _ => .error .malformed
  | _ + 1, [] => .error .malformed
  | _ + 1, '"' :: rest => .ok ([], rest)
  | fuel + 1, '\\' :: 'u' :: rest => do
    let (c, rest') ← readEscapedCode d rest
    let (cs, rest'') ← readString d fuel rest'
    .ok (c :: cs, rest'')
  | fuel + 1, '\\' :: e :: rest =>
    match simpleEscape? e with
    | none => .error .malformed
    | some c => (readString d fuel rest).map fun (cs, rest') => (c :: cs, rest')
  | fuel + 1, c :: rest =>
    if c == '\\' || c.toNat < 32 then .error .malformed
    else (readString d fuel rest).map fun (cs, rest') => (c :: cs, rest')

/-! ## Values -/

/-- The words that stand for values. -/
def words : List (String × Json) :=
  [("null", null), ("true", bool true), ("false", bool false), ("NaN", number .notANumber),
    ("Infinity", number (.infinite false)), ("-Infinity", number (.infinite true))]

/-- The word at the start of a text. -/
def readWord? (text : List Char) : Option (Json × List Char) :=
  (words.find? fun w => beginsWith w.1.toList text).map fun w =>
    (w.2, text.drop w.1.toList.length)

/-- The number at the start of a text. -/
def readNumber (d : Dialect) (text : List Char) : Except JsonFault (Json × List Char) :=
  let read :=
    match text with
    | '-' :: rest => readMagnitude d true rest
    | _ => readMagnitude d false text
  read.map fun (n, rest) => (number n, rest)

mutual

/-- The value at the start of a text, which lies in `depth` arrays and objects. -/
def readValue (d : Dialect) : Nat → Nat → List Char → Except JsonFault (Json × List Char)
  | 0, _, _ => .error .malformed
  | fuel + 1, depth, text =>
    match text with
    | '"' :: rest =>
      (readString d fuel rest).map fun (s, rest') => (string (String.ofList s), rest')
    | '[' :: rest =>
      match skipSpace rest with
      | ']' :: rest' => .ok (array [], rest')
      | rest' =>
        if d.allowsDepth (depth + 1) then
          (readItems d fuel (depth + 1) rest').map fun (items, rest'') => (array items, rest'')
        else .error .malformed
    | '{' :: rest =>
      match skipSpace rest with
      | '}' :: rest' => .ok (object [], rest')
      | rest' =>
        if d.allowsDepth (depth + 1) then
          (readMembers d fuel (depth + 1) rest').map fun (ms, rest'') => (d.objectOf ms, rest'')
        else .error .malformed
    | _ =>
      match readWord? text with
      | some found => .ok found
      | none => readNumber d text

/-- The items of an array up to its closing bracket. -/
def readItems (d : Dialect) : Nat → Nat → List Char → Except JsonFault (List Json × List Char)
  | 0, _, _ => .error .malformed
  | fuel + 1, depth, text => do
    let (item, rest) ← readValue d fuel depth text
    match skipSpace rest with
    | ']' :: rest' => .ok ([item], rest')
    | ',' :: rest' =>
      let (items, rest'') ← readItems d fuel depth (skipSpace rest')
      .ok (item :: items, rest'')
    | _ => .error .malformed

/-- The members of an object up to its closing brace. -/
def readMembers (d : Dialect) :
    Nat → Nat → List Char → Except JsonFault (List (String × Json) × List Char)
  | 0, _, _ => .error .malformed
  | fuel + 1, depth, text =>
    match text with
    | '"' :: rest => do
      let (name, rest) ← readString d fuel rest
      match skipSpace rest with
      | ':' :: rest => do
        let (value, rest) ← readValue d fuel depth (skipSpace rest)
        let member := (String.ofList name, value)
        match skipSpace rest with
        | '}' :: rest' => .ok ([member], rest')
        | ',' :: rest' =>
          let (members, rest'') ← readMembers d fuel depth (skipSpace rest')
          .ok (member :: members, rest'')
        | _ => .error .malformed
      | _ => .error .malformed
    | _ => .error .malformed

end

/-- The value of a JSON text. -/
def parse (d : Dialect) (text : List Char) : Except JsonFault Json :=
  (readValue d (2 * text.length + 1) 0 (skipSpace text)).bind fun (value, rest) =>
    if (skipSpace rest).isEmpty then .ok value else .error .malformed

end Json

end PlanAudit
