import PlanAudit.Proofs.Text.Words
import PlanAudit.Types.Declaration

/-!
# Sources of type declarations as they are written

A source is a sequence of declarations, each on lines of its own.  A declaration has a head of words
and a name, and then either a body in braces or, behind an equals sign, a type.

A body is found without counting braces.  It is closed by the first brace at the start of a line, so
that a declaration whose body is closed inside a line, or one with a brace in its head, is not told
from what follows it.  `Source.Closed` says that a source has none of these.

## Main definitions

* `Token`, `Head`: the words in front of a declaration
* `Item`, `Source`: declarations and sequences of them
* `Head.Continues`: the forms of heads that are read
* `Source.Closed`: every body ends where a line starts, and only there
-/

namespace PlanAudit.Types

open Text

/-! ## Words -/

/-- A word with the white space behind it. -/
@[ext]
structure Token where
  name : Word
  gap : Gap

def Token.chars (t : Token) : List Char := t.name.chars ++ t.gap.chars

def Token.string (t : Token) : String := t.name.string

def tokensChars (ts : List Token) : List Char := ts.flatMap Token.chars

/-! ## Heads -/

/-- The word in front of a declaration of the kind. -/
def DeclarationKind.keyword (k : DeclarationKind) : Word where
  chars := k.label.toList
  ne_nil := by cases k <;> decide
  word := List.all_eq_true.mp (by cases k <;> decide)

/-- The words that can stand in front of the keyword, in this order. -/
def DeclarationKind.modifiers : DeclarationKind → List String
  | .interface | .alias => ["export"]
  | .enumeration => ["export", "const"]
  | .classType => ["export", "abstract"]

def kindLabels : List String := ["interface", "type", "enum", "class"]

/-- The words of a declaration up to the brace or the equals sign. -/
structure Head where
  /-- The words in front of the keyword. -/
  modifiers : List Token
  /-- None of them is a keyword itself. -/
  plain : ∀ m ∈ modifiers, m.string ∉ kindLabels
  kind : DeclarationKind
  gap : Gap
  name : Word
  /-- What stands behind the name. -/
  after : List Char
  /-- The name ends in front of it. -/
  apart : ∀ c ∈ after.head?, isWord c = false
  /-- Type parameters that are opened are closed. -/
  angle : after.head? = some '<' → '>' ∈ after

namespace Head

variable (h : Head)

/-- The words in front of the name. -/
def tokens : List Token := h.modifiers ++ [⟨h.kind.keyword, h.gap⟩]

/-- The head up to the end of the name. -/
def front : List Char := tokensChars h.tokens ++ h.name.chars

/-- The words in front of the keyword are those that are read there. -/
def Introduces : Prop := (h.modifiers.map Token.string).Sublist h.kind.modifiers

end Head

/-! ## Forms of heads -/

/-- White space, possibly none. -/
def Blank (w : List Char) : Prop := ∀ c ∈ w, isBlank c = true

/-- Type parameters between angle brackets, or nothing. -/
def Parameters (w : List Char) : Prop := w = [] ∨ ∃ p, w = '<' :: (p ++ ['>'])

/-- Type parameters that hold no closing angle bracket, or nothing. -/
def FlatParameters (w : List Char) : Prop :=
  w = [] ∨ ∃ p, w = '<' :: (p ++ ['>']) ∧ p ≠ [] ∧ '>' ∉ p

/-- What an interface extends, or nothing. -/
def Heritage (w : List Char) : Prop :=
  w = [] ∨ ∃ (g₁ g₂ : Gap) (q : List Char),
    w = g₁.chars ++ ("extends".toList ++ (g₂.chars ++ q)) ∧ q ≠ [] ∧
      ∀ c ∈ q, isHeritageChar c = true

/-- What stands between a name and an equals sign. -/
def BeforeEquals (w : List Char) : Prop :=
  ∃ params gap, w = params ++ gap ∧ FlatParameters params ∧ Blank gap

/-- What stands between the name of a declaration of the kind and the brace that opens its body, in
the forms that are read. -/
inductive Continues : DeclarationKind → List Char → Prop
  | interface {params heritage gap : List Char} (hp : Parameters params) (hh : Heritage heritage)
      (hg : Blank gap) : Continues .interface (params ++ (heritage ++ gap))
  | object {front gap : List Char} (hf : BeforeEquals front) (hg : Blank gap) :
      Continues .alias (front ++ '=' :: gap)
  | enumeration {gap : List Char} (hg : Blank gap) : Continues .enumeration gap
  | classType {gap : List Char} (hg : Blank gap) : Continues .classType gap
  | heir (g : Gap) {w : String} (hw : w ∈ ["extends", "implements"]) (z : List Char) :
      Continues .classType (g.chars ++ (w.toList ++ z))

/-! ## Declarations -/

/-- A declaration with a body in braces. -/
structure Braced where
  head : Head
  body : List Char
  /-- What stands behind the body, up to the next declaration. -/
  tail : List Char
  /-- It ends the line. -/
  ended : tail.getLast? = some '\n'

/-- An alias of a type. -/
structure Equated where
  head : Head
  isAlias : head.kind = .alias
  /-- What stands behind the equals sign, up to the next declaration. -/
  value : List Char
  /-- It ends the line. -/
  ended : value.getLast? = some '\n'

/-- A declaration as it is written. -/
inductive Item where
  | braced (b : Braced)
  | equated (e : Equated)

namespace Item

def head : Item → Head
  | braced b => b.head
  | equated e => e.head

/-- The declaration has a body in braces. -/
def IsBraced : Item → Prop
  | braced _ => True
  | equated _ => False

def body : Item → List Char
  | braced b => b.body
  | equated _ => []

/-- What stands behind the name. -/
def rest : Item → List Char
  | braced b => b.head.after ++ '{' :: (b.body ++ '}' :: b.tail)
  | equated e => e.head.after ++ '=' :: e.value

variable (i : Item)

def text : List Char := i.head.front ++ i.rest

def name : String := i.head.name.string

/-- The declaration has a form that is read. -/
def Readable : Item → Prop
  | braced b => b.head.Introduces ∧ Continues b.head.kind b.head.after
  | equated e => e.head.Introduces ∧ BeforeEquals e.head.after

end Item

/-- The members in a body of a declaration of the kind. -/
def DeclarationKind.members : DeclarationKind → List Char → Catalog Member
  | .interface | .alias => objectMembers
  | .enumeration => enumMembers
  | .classType => classMembers

/-- What the declaration declares: its name with the members of its own body. -/
def Item.declaration (file : String) (i : Item) : Declaration :=
  ⟨i.name, i.head.kind, i.head.kind.members i.body, file⟩

/-! ## Sources -/

/-- The first word of a line. -/
def firstWord (line : List Char) : List Char := line.takeWhile fun c => !isBlank c

/-- The words with which declarations start. -/
def openers : List String := "export" :: "const" :: "abstract" :: kindLabels

/-- The line starts like a declaration. -/
def Opens (line : List Char) : Prop := String.ofList (firstWord line) ∈ openers

instance (line : List Char) : Decidable (Opens line) := inferInstanceAs (Decidable (_ ∈ _))

/-- A sequence of declarations. -/
structure Source where
  /-- What stands in front of the first one. -/
  preamble : List Char
  /-- It ends the line. -/
  ended : ∀ c ∈ preamble.getLast?, c = '\n'
  items : List Item

def Source.text (s : Source) : List Char := s.preamble ++ s.items.flatMap Item.text

/-! ## Bodies that end where a line starts -/

/-- The text does not start with a brace, but with something. -/
def StartsNoBrace (w : List Char) : Prop := stripStart w ≠ [] ∧ (stripStart w).head? ≠ some '{'

instance (w : List Char) : Decidable (StartsNoBrace w) := inferInstanceAs (Decidable (_ ∧ _))

/-- A body is closed where a line starts, and no brace closes it before.  The type behind an equals
sign is no body. -/
def Item.Ends : Item → Prop
  | braced b => b.body.getLast? = some '\n' ∧ ∀ line ∈ b.body.splitOn '\n', line.head? ≠ some '}'
  | equated e => StartsNoBrace e.value

instance : (i : Item) → Decidable i.Ends
  | .braced _ => inferInstanceAs (Decidable (_ ∧ _))
  | .equated e => inferInstanceAs (Decidable (StartsNoBrace e.value))

/-- The declaration is told from what follows it. -/
structure Item.Closed (i : Item) : Prop where
  /-- The first brace opens the body. -/
  head : '{' ∉ i.head.after
  /-- Only the first line starts like a declaration. -/
  lines : ∀ line ∈ (i.text.splitOn '\n').tail, ¬ Opens line
  ends : i.Ends

instance (i : Item) : Decidable i.Closed :=
  decidable_of_iff
    ('{' ∉ i.head.after ∧ (∀ line ∈ (i.text.splitOn '\n').tail, ¬ Opens line) ∧ i.Ends)
    ⟨fun ⟨hhead, hlines, hends⟩ => ⟨hhead, hlines, hends⟩, fun h => ⟨h.head, h.lines, h.ends⟩⟩

/-- Every declaration is told from what follows it. -/
structure Source.Closed (s : Source) : Prop where
  preamble : ∀ line ∈ s.preamble.splitOn '\n', ¬ Opens line
  items : ∀ i ∈ s.items, i.Closed

instance (s : Source) : Decidable s.Closed :=
  decidable_of_iff
    ((∀ line ∈ s.preamble.splitOn '\n', ¬ Opens line) ∧ ∀ i ∈ s.items, i.Closed)
    ⟨fun ⟨hpreamble, hitems⟩ => ⟨hpreamble, hitems⟩, fun h => ⟨h.preamble, h.items⟩⟩

end PlanAudit.Types
