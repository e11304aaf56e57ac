import PlanAudit.Json.Basic
import PlanAudit.Text.Quoted

/-!
# Writing JSON

Two layouts are written: a compact one on a single line, and an indented one in which every
character beyond ASCII is escaped.

## Main definitions

* `Json.compact`: the text on one line
* `Json.indented`: the text with two spaces of indentation for each level
-/

namespace PlanAudit.Json

open PlanAudit.Text

/-! ## Strings and numbers -/

/-- The two-character escapes. -/
def shortEscape? (c : Char) : Option Char :=
  match c with
  | '"' => some '"'
  | '\\' => some '\\'
  | '\x08' => some 'b'
  | '\x0c' => some 'f'
  | '\n' => some 'n'
  | '\r' => some 'r'
  | '\t' => some 't'
  | _ => none

/-- The escape of a code below `2 ^ 16`. -/
def codeEscape (n : Nat) : List Char := '\\' :: 'u' :: hexDigits 4 n

/-- A character of a string on one line: only what must be escaped is. -/
def compactChar (c : Char) : List Char :=
  match shortEscape? c with
  | some e => ['\\', e]
  | none => if c.toNat < 32 then codeEscape c.toNat else [c]

/-- A character of an ASCII string; characters beyond `2 ^ 16` become two codes. -/
def asciiChar (c : Char) : List Char :=
  match shortEscape? c with
  | some e => ['\\', e]
  | none =>
    let n := c.toNat
    if 32 ≤ n ∧ n < 127 then [c]
    else if n < 0x10000 then codeEscape n
    else codeEscape (0xD800 + (n - 0x10000) / 0x400) ++ codeEscape (0xDC00 + (n - 0x10000) % 0x400)

/-- A string between quotation marks, with each character written by `write`. -/
def quotedBy (write : Char → List Char) (s : String) : String :=
  String.ofList ('"' :: s.toList.flatMap write ++ ['"'])

/-- The text of a number. -/
def numberText : JsonNumber → String
  | .integer n => toString n
  | .decimal mantissa exponent => s!"{mantissa}e{exponent}"
  | .notANumber => "NaN"
  | .infinite negative => if negative then "-Infinity" else "Infinity"

/-! ## One line -/

mutual

/-- The value on one line. -/
def compact : Json → String
  | null => "null"
  | bool b => if b then "true" else "false"
  | number n => numberText n
  | string s => quotedBy compactChar s
  | array items => "[" ++ ",".intercalate (compactItems items) ++ "]"
  | object members => "\x7b" ++ ",".intercalate (compactMembers members) ++ "\x7d"

/-- The items of an array, each on one line. -/
def compactItems : List Json → List String
  | [] => []
  | item :: rest => compact item :: compactItems rest

/-- The members of an object, each on one line. -/
def compactMembers : List (String × Json) → List String
  | [] => []
  | (name, value) :: rest =>
    (quotedBy compactChar name ++ ":" ++ compact value) :: compactMembers rest

end

/-! ## Indented -/

/-- A line feed and the indentation of a level. -/
def newLine (level : Nat) : String := "\n" ++ String.ofList (List.replicate (2 * level) ' ')

/-- Parts between an opening and a closing bracket, each on lines of its own. -/
def bracketed (opener closer : String) (level : Nat) (parts : List String) : String :=
  if parts.isEmpty then opener ++ closer
  else
    opener ++ newLine (level + 1) ++ ("," ++ newLine (level + 1)).intercalate parts ++
      newLine level ++ closer

mutual

/-- The value at an indentation level. -/
def indentedAt (level : Nat) : Json → String
  | null => "null"
  | bool b => if b then "true" else "false"
  | number n => numberText n
  | string s => quotedBy asciiChar s
  | array items => bracketed "[" "]" level (indentedItems (level + 1) items)
  | object members => bracketed "\x7b" "\x7d" level (indentedMembers (level + 1) members)

/-- The items of an array at an indentation level. -/
def indentedItems (level : Nat) : List Json → List String
  | [] => []
  | item :: rest => indentedAt level item :: indentedItems level rest

/-- The members of an object at an indentation level. -/
def indentedMembers (level : Nat) : List (String × Json) → List String
  | [] => []
  | (name, value) :: rest =>
    (quotedBy asciiChar name ++ ": " ++ indentedAt level value) :: indentedMembers level rest

end

/-- The value with two spaces of indentation for each level, in ASCII. -/
def indented (j : Json) : String := indentedAt 0 j

end PlanAudit.Json
