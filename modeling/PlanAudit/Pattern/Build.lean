import PlanAudit.Pattern.Search

/-!
# Building patterns

The vocabulary in which the patterns of the checkers are written.

## Main definitions

* `lit`, `litAnyCase`: a fixed text
* `oneOf`, `noneOf`: a character inside or outside a fixed set
* `star`, `plus`, `opt` and their lazy forms: repetition
* `word`, `name`, `blanks`, `blanks1`, `quote`: what source text is made of
* `textStart`, `textEnd`, `lineStart`, `lineEnd`, `wordEdge`: positions
-/

namespace PlanAudit.Pattern

open PlanAudit.Text

/-! ## Characters and texts -/

/-- The one character `c`. -/
def char (c : Char) : Pattern := one (· == c)

/-- The character `c` in either case. -/
def charAnyCase (c : Char) : Pattern := one fun x => sameLetter x c

/-- The patterns one after the other. -/
def chain : List Pattern → Pattern
  | [] => empty
  | [p] => p
  | p :: ps => seq p (chain ps)

/-- The text `s`. -/
def litChars (s : List Char) : Pattern := chain (s.map char)

/-- The text `s`. -/
def lit (s : String) : Pattern := litChars s.toList

/-- The text `s` in any mixture of cases. -/
def litAnyCase (s : String) : Pattern := chain (s.toList.map charAnyCase)

/-- One of the characters of `s`. -/
def oneOf (s : String) : Pattern := one s.toList.contains

/-- Any character that `s` does not contain. -/
def noneOf (s : String) : Pattern := one fun c => !s.toList.contains c

/-- Any character. -/
def anything : Pattern := one fun _ => true

/-- The position after which nothing matches. -/
def never : Pattern := here fun _ _ => false

/-- The first of the patterns that matches. -/
def anyOf : List Pattern → Pattern
  | [] => never
  | [p] => p
  | p :: ps => alt p (anyOf ps)

/-- One of the fixed texts, tried in order. -/
def oneOfTexts (texts : List String) : Pattern := anyOf (texts.map lit)

/-- One of the fixed texts in any mixture of cases, tried in order. -/
def oneOfTextsAnyCase (texts : List String) : Pattern := anyOf (texts.map litAnyCase)

/-! ## Repetition -/

/-- Any number of times, as often as possible. -/
def star (p : Pattern) : Pattern := loop true 0 none p

/-- At least once, as often as possible. -/
def plus (p : Pattern) : Pattern := loop true 1 none p

/-- Once if possible, or not at all. -/
def opt (p : Pattern) : Pattern := loop true 0 (some 1) p

/-- Any number of times, as rarely as possible. -/
def starLazy (p : Pattern) : Pattern := loop false 0 none p

/-- At least once, as rarely as possible. -/
def plusLazy (p : Pattern) : Pattern := loop false 1 none p

/-! ## Words, blanks and quotes -/

/-- One character of a name. -/
def word : Pattern := one isWord

/-- A run of name characters. -/
def name : Pattern := plus word

/-- White space, possibly none. -/
def blanks : Pattern := star (one isBlank)

/-- At least one character of white space. -/
def blanks1 : Pattern := plus (one isBlank)

/-- A single or double quotation mark. -/
def quote : Pattern := oneOf "'\""

/-- A single or double quotation mark or a grave accent. -/
def anyQuote : Pattern := oneOf "'\"\x60"

/-- A text of at least one character between single or double quotation marks. -/
def quoted (index : Nat) : Pattern := quote ++ capture index (plus (noneOf "'\"")) ++ quote

/-! ## Positions -/

/-- The start of the text. -/
def textStart : Pattern := here fun before _ => before.isNone

/-- The end of the text, or the position before a line feed that ends it. -/
def textEnd : Pattern := here fun _ rest => rest.isEmpty || rest == ['\n']

/-- A single name and nothing else. -/
def soleName : Pattern := name ++ textEnd

/-- The start of a line. -/
def lineStart : Pattern := here fun before _ => before.isNone || before == some '\n'

/-- The end of a line. -/
def lineEnd : Pattern := here fun _ rest => rest.isEmpty || rest.head? == some '\n'

/-- A position with a name character on exactly one side. -/
def wordEdge : Pattern :=
  here fun before rest => before.any isWord != rest.head?.any isWord

/-- A position that no character accepted by `p` follows. -/
def notBefore (p : Char → Bool) : Pattern := here fun _ rest => !rest.head?.any p

end PlanAudit.Pattern
