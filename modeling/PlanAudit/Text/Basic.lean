import PlanAudit.Text.Case

/-!
# Texts as lists of characters

A text under examination is a `List Char`; positions count characters.  This module holds the
operations on texts that the rest of the library shares, and the same for strings.

## Main definitions

* `slice`: the characters between two positions
* `contains`, `find?`, `findLast?`: occurrences of a piece in a text
* `strip`, `stripEnd`, `stripStart`: removal of white space at the ends
* `splitLines`: the lines of a text file
* `segments`: the parts of a string between slashes
-/

namespace PlanAudit.Text

/-! ## Positions and pieces -/

/-- The characters from position `start` up to position `stop`. -/
def slice (text : List Char) (start stop : Nat) : List Char := (text.take stop).drop start

/-- Whether `text` begins with `piece`. -/
def beginsWith (piece text : List Char) : Bool := piece.isPrefixOf text

/-- Whether `text` ends in `piece`. -/
def endsWith (piece text : List Char) : Bool := piece.isSuffixOf text

/-- The position of the first occurrence of `piece`. -/
def find? (piece : List Char) : List Char → Option Nat
  | [] => if piece.isEmpty then some 0 else none
  | c :: rest =>
    if beginsWith piece (c :: rest) then some 0 else (find? piece rest).map (· + 1)

/-- The position of the last occurrence of `piece`. -/
def findLast? (piece : List Char) : List Char → Option Nat
  | [] => if piece.isEmpty then some 0 else none
  | c :: rest =>
    match findLast? piece rest with
    | some n => some (n + 1)
    | none => if beginsWith piece (c :: rest) then some 0 else none

/-- Whether `piece` occurs in the text. -/
def contains (piece text : List Char) : Bool := (find? piece text).isSome

/-- The text without the white space at its start. -/
def stripStart (text : List Char) : List Char := text.dropWhile isBlank

/-- The text without those last characters that satisfy `p`. -/
def dropEndWhile (p : Char → Bool) (text : List Char) : List Char :=
  (text.reverse.dropWhile p).reverse

/-- The text without the white space at its end. -/
def stripEnd (text : List Char) : List Char := dropEndWhile isBlank text

/-- The text without the white space at both ends. -/
def strip (text : List Char) : List Char := stripEnd (stripStart text)

/-! ## Lines and parts -/

/-- The lines of a text that follow the characters `line`, which are given in reverse.  A carriage
return before a line feed ends one line with it; a line break at the end opens no further line. -/
def splitLinesFrom (line : List Char) : List Char → List (List Char)
  | [] => if line.isEmpty then [] else [line.reverse]
  | '\r' :: '\n' :: rest => line.reverse :: splitLinesFrom [] rest
  | c :: rest =>
    if isLineBreak c then line.reverse :: splitLinesFrom [] rest
    else splitLinesFrom (c :: line) rest

/-- The lines of a text file, without their ends. -/
def splitLines (text : List Char) : List (List Char) := splitLinesFrom [] text

/-- The parts of a text between commas, without white space around them. -/
def commaParts (text : List Char) : List (List Char) := (text.splitOn ',').map strip

/-- The parts of a string between slashes. -/
def segments (s : String) : List String := (s.toList.splitOn '/').map String.ofList

/-- The parts between slashes that are not empty. -/
def properSegments (s : String) : List String := (segments s).filter (· != "")

/-! ## Strings -/

/-- Whether the string begins with `piece`. -/
def stringBegins (piece s : String) : Bool := beginsWith piece.toList s.toList

/-- Whether the string ends in `piece`. -/
def stringEnds (piece s : String) : Bool := endsWith piece.toList s.toList

/-- Whether `piece` occurs in the string. -/
def stringContains (piece s : String) : Bool := contains piece.toList s.toList

/-- The string without its first `n` characters. -/
def dropString (n : Nat) (s : String) : String := String.ofList (s.toList.drop n)

/-- The string without the ending `piece`, if it has it. -/
def withoutEnd (piece s : String) : String :=
  if stringEnds piece s then String.ofList (s.toList.take (s.toList.length - piece.toList.length))
  else s

/-- The string without the beginning `piece`, if it has it. -/
def withoutStart (piece s : String) : String :=
  if stringBegins piece s then dropString piece.toList.length s else s

/-- The names with a comma and a space between them. -/
def commaList (names : List String) : String := ", ".intercalate names

/-- The elements of a list, of those with the same key only the first. -/
def firstPerKey {α κ : Type} [BEq κ] (key : α → κ) : List α → List α
  | [] => []
  | a :: rest => a :: (firstPerKey key rest).filter fun b => !(key b == key a)

/-! ## Small facts -/

@[simp] theorem slice_zero (text : List Char) (stop : Nat) :
    slice text 0 stop = text.take stop := by
  simp [slice]

theorem length_slice_le (text : List Char) (start stop : Nat) :
    (slice text start stop).length ≤ stop - start := by
  simp only [slice, List.length_drop, List.length_take]
  omega

/-- The empty piece occurs in every text. -/
@[simp] theorem contains_nil (text : List Char) : contains [] text = true := by
  cases text <;> simp [contains, find?, beginsWith]

end PlanAudit.Text
