import PlanAudit.Text.Basic

/-!
# Bracketed text

Source text is not parsed here; what is counted is brackets.  A slice ends at the bracket that
closes the one before it, and a list is cut only at separators outside all brackets.

## Main definitions

* `Bracket`: the three kinds of brackets
* `balancedSlice?`, `balancedSlice`: the text inside a bracket, strict and lenient
* `splitTopLevel`: the parts of a text between separators outside brackets
* `braceBalance`: the number of braces left open
-/

namespace PlanAudit.Text

/-- A kind of brackets. -/
inductive Bracket where
  | curly
  | round
  | square
  deriving DecidableEq, Repr

namespace Bracket

/-- The opening bracket. -/
def opener : Bracket → Char
  | curly => '{'
  | round => '('
  | square => '['

/-- The closing bracket. -/
def closer : Bracket → Char
  | curly => '}'
  | round => ')'
  | square => ']'

/-- The kind whose opening bracket is the given text. -/
def ofOpener? (s : String) : Option Bracket :=
  [curly, round, square].find? fun b => s == b.opener.toString

end Bracket

/-- An opening bracket of any kind. -/
def isOpener (c : Char) : Bool := c == '{' || c == '[' || c == '('

/-- A closing bracket of any kind. -/
def isCloser (c : Char) : Bool := c == '}' || c == ']' || c == ')'

/-! ## The text inside a bracket -/

/-- The position of the bracket that closes the last of `depth + 1` open ones. -/
def closerIndex (b : Bracket) : Nat → List Char → Option Nat
  | _, [] => none
  | depth, c :: rest =>
    if c = b.opener then (closerIndex b (depth + 1) rest).map (· + 1)
    else if c = b.closer then
      match depth with
      | 0 => some 0
      | depth + 1 => (closerIndex b depth rest).map (· + 1)
    else (closerIndex b depth rest).map (· + 1)

/-- A piece of text and the position after the bracket that closes it. -/
structure Slice where
  /-- The text before the closing bracket. -/
  body : List Char
  /-- The position after the closing bracket. -/
  stop : Nat
  deriving DecidableEq, Repr

/-- The text from `start` up to the bracket that closes the one before `start`. -/
def balancedSlice? (text : List Char) (start : Nat) (b : Bracket) : Option Slice :=
  let rest := text.drop start
  (closerIndex b 0 rest).map fun n => ⟨rest.take n, start + n + 1⟩

/-- The same, where a missing closing bracket is taken to stand at the end of the text. -/
def balancedSlice (text : List Char) (start : Nat) (b : Bracket) : Slice :=
  (balancedSlice? text start b).getD ⟨text.drop start, text.length⟩

/-! ## Parts between separators -/

/-- How a character changes the number of open brackets. -/
def bracketStep (c : Char) : Int := if isOpener c then 1 else if isCloser c then -1 else 0

/-- The parts of a text that follows the characters `part`, given in reverse, with `depth` brackets
open.  A part that would be last and empty is left out. -/
def splitTopLevelFrom (sep : List Char) (depth : Int) (part : List Char) :
    List Char → List (List Char)
  | [] => if part.isEmpty then [] else [part.reverse]
  | c :: rest =>
    let depth' := depth + bracketStep c
    if [c] = sep ∧ depth' = 0 then part.reverse :: splitTopLevelFrom sep depth' [] rest
    else splitTopLevelFrom sep depth' (c :: part) rest

/-- The parts of a text between separators that stand outside brackets. -/
def splitTopLevel (text : List Char) (sep : List Char) : List (List Char) :=
  splitTopLevelFrom sep 0 [] text

/-- The number of opening less the number of closing braces. -/
def braceBalance (text : List Char) : Int := (text.count '{' : Int) - (text.count '}' : Int)

end PlanAudit.Text
