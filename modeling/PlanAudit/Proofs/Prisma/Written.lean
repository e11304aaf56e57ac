import Mathlib.Data.List.TakeWhile
import PlanAudit.Proofs.Prisma.Blocks

/-!
# Schemas as they are written

A schema is written line by line: models with a field on each line, enumerations with a value on
each line, and between and inside them lines that declare nothing.  White space and what follows a
declaration on its line are free, as long as every closing brace starts a line of its own.

A block could be opened by mistake where a field or a value is named like a keyword.  It never is,
because no opening brace follows it: what follows a line is calm.

## Main definitions

* `Filler`, `FieldText`, `ValueText`, `Line`: the lines of a schema
* `BlockText`, `ModelText`, `Item`, `SchemaText`: the schema that they make up
* `SchemaText.text`: its text
* `Calm`: a text in front of which no block is opened by mistake

## Main results

* `calm_linesAfter`: what follows a line is calm
* `Line.not_opens`: a line opens no block of which it is not the head
-/

namespace PlanAudit.Prisma

open Text Pattern

/-! ## Lines -/

/-- A line that declares nothing: white space, a comment, or an attribute of a model. -/
structure Filler where
  /-- What stands in front. -/
  indent : Spacing
  /-- The comment or the attribute. -/
  text : List Char
  /-- It stands on one line. -/
  unbroken : '\n' ∉ text
  /-- It is what it says. -/
  ignored : text = [] ∨ beginsWith "//".toList text = true ∨ beginsWith "@@".toList text = true

/-- The characters of the line. -/
def Filler.chars (f : Filler) : List Char := f.indent.chars ++ f.text

/-- What follows a declaration on its line: attributes, a comment, or nothing. -/
structure Trailing where
  /-- The characters. -/
  chars : List Char
  /-- They stand on one line. -/
  unbroken : '\n' ∉ chars
  /-- Behind white space they start as an attribute or a comment does. -/
  opening : ∀ c ∈ (stripStart chars).head?, c = '@' ∨ c = '/'

/-- The mark behind the type of a field. -/
inductive Mark where
  /-- No mark. -/
  | single
  /-- Brackets: the field holds a list. -/
  | list
  /-- A question mark: the field may be missing. -/
  | optional
  deriving DecidableEq, Repr

/-- The characters of the mark. -/
def Mark.chars : Mark → List Char
  | .single => []
  | .list => ['[', ']']
  | .optional => ['?']

/-- A line that declares a field. -/
structure FieldText where
  /-- What stands in front. -/
  indent : Spacing
  /-- The name of the field. -/
  name : Word
  /-- What stands between the name and the type. -/
  gap : Spacing
  /-- The two are apart. -/
  gap_ne_nil : gap.chars ≠ []
  /-- The name of the type. -/
  type : Word
  /-- Whether the field holds a list or may be missing. -/
  mark : Mark
  /-- The attributes of the field. -/
  trailing : Trailing

/-- What follows the type on the line. -/
def FieldText.rest (f : FieldText) : List Char := f.mark.chars ++ f.trailing.chars

/-- The characters of the line. -/
def FieldText.chars (f : FieldText) : List Char :=
  f.indent.chars ++ (f.name.chars ++ (f.gap.chars ++ (f.type.chars ++ f.rest)))

/-- A line that declares a value of an enumeration. -/
structure ValueText where
  /-- What stands in front. -/
  indent : Spacing
  /-- The name of the value. -/
  name : Word
  /-- The attributes of the value. -/
  trailing : Trailing

/-- The characters of the line. -/
def ValueText.chars (v : ValueText) : List Char :=
  v.indent.chars ++ (v.name.chars ++ v.trailing.chars)

/-- A line of a schema. -/
inductive Line where
  /-- A line that declares nothing. -/
  | filler (f : Filler)
  /-- A field. -/
  | field (f : FieldText)
  /-- A value. -/
  | value (v : ValueText)
  /-- The head of a block, and what follows its brace on the line. -/
  | head (kind : BlockKind) (h : HeadText) (tail : Filler)
  /-- The brace that closes a block, and what follows it on the line. -/
  | close (tail : Filler)

/-- The characters of the line. -/
def Line.text : Line → List Char
  | .filler f => f.chars
  | .field f => f.chars
  | .value v => v.chars
  | .head kind h tail => h.chars kind ++ tail.chars
  | .close tail => '}' :: tail.chars

/-- The head of a block of the kind that the line is. -/
def Line.head? (kind : BlockKind) : Line → Option HeadText
  | .head other h _ => if other = kind then some h else none
  | _ => none

/-! ## Schemas -/

/-- A block with members that are written one on each line. -/
structure BlockText (α : Type) where
  /-- The head. -/
  head : HeadText
  /-- What follows the brace of the head on its line. -/
  tail : Filler
  /-- The members, and the lines between them. -/
  members : List (Filler ⊕ α)
  /-- What follows the closing brace on its line. -/
  close : Filler

section BlockText

variable {α : Type}

/-- The name of the block. -/
def BlockText.name (b : BlockText α) : String := b.head.name.string

/-- The members of the block. -/
def BlockText.entries (b : BlockText α) : List α := b.members.filterMap Sum.getRight?

/-- The lines of the block. -/
def BlockText.lines (kind : BlockKind) (line : α → Line) (b : BlockText α) : List Line :=
  .head kind b.head b.tail :: (b.members.map (Sum.elim .filler line) ++ [.close b.close])

end BlockText

/-- A model whose fields have different names. -/
structure ModelText extends BlockText FieldText where
  /-- No two fields share a name. -/
  distinct : (toBlockText.entries.map (·.name.string)).Nodup

/-- A part of a schema. -/
inductive Item where
  /-- A line between blocks. -/
  | filler (f : Filler)
  /-- A model. -/
  | model (m : ModelText)
  /-- An enumeration. -/
  | enum (e : BlockText ValueText)

/-- The lines of the part. -/
def Item.lines : Item → List Line
  | .filler f => [.filler f]
  | .model m => m.lines .model .field
  | .enum e => e.lines .enum .value

/-- The model that the part is. -/
def Item.model? : Item → Option ModelText
  | .model m => some m
  | _ => none

/-- The enumeration that the part is. -/
def Item.enum? : Item → Option (BlockText ValueText)
  | .enum e => some e
  | _ => none

/-- A schema whose models have different names. -/
structure SchemaText where
  /-- The parts of the schema. -/
  items : List Item
  /-- No two models share a name. -/
  distinct : ((items.filterMap Item.model?).map (·.name)).Nodup

namespace SchemaText

/-- The models of the schema. -/
def models (s : SchemaText) : List ModelText := s.items.filterMap Item.model?

/-- The enumerations of the schema. -/
def enums (s : SchemaText) : List (BlockText ValueText) := s.items.filterMap Item.enum?

/-- The text of the schema: its lines with line feeds between them. -/
def text (s : SchemaText) : List Char :=
  ['\n'].intercalate ((s.items.flatMap Item.lines).map Line.text)

end SchemaText

/-! ## Lines do not break -/

theorem unbroken_word (i : Word) : '\n' ∉ i.chars := i.not_mem (by decide)

theorem Mark.unbroken (m : Mark) : '\n' ∉ m.chars := by cases m <;> decide

theorem Filler.unbroken_chars (f : Filler) : '\n' ∉ f.chars := by
  simp [Filler.chars, f.indent.unbroken, f.unbroken]

theorem HeadText.unbroken_chars (h : HeadText) (k : BlockKind) : '\n' ∉ h.chars k := by
  have hkeyword : '\n' ∉ k.keyword.toList := fun hmem => absurd (k.word _ hmem) (by decide)
  simp [HeadText.chars, hkeyword, h.gap.unbroken, unbroken_word h.name, h.space.unbroken]

theorem FieldText.unbroken_chars (f : FieldText) : '\n' ∉ f.chars := by
  simp [FieldText.chars, FieldText.rest, f.indent.unbroken, unbroken_word f.name, f.gap.unbroken,
    unbroken_word f.type, f.mark.unbroken, f.trailing.unbroken]

theorem ValueText.unbroken_chars (v : ValueText) : '\n' ∉ v.chars := by
  simp [ValueText.chars, v.indent.unbroken, unbroken_word v.name, v.trailing.unbroken]

/-- A line is one line. -/
theorem Line.unbroken (l : Line) : '\n' ∉ l.text := by
  cases l with
  | filler f => exact f.unbroken_chars
  | field f => exact f.unbroken_chars
  | value v => exact v.unbroken_chars
  | head kind h tail => simp [Line.text, h.unbroken_chars, tail.unbroken_chars]
  | close tail => simp [Line.text, tail.unbroken_chars]

/-! ## Calm texts -/

/-- Behind white space the text starts with no brace, and with no name that a brace follows. -/
structure Calm (t : List Char) : Prop where
  no_brace : ∀ c ∈ (stripStart t).head?, c ≠ '{'
  no_block : (stripStart t).takeWhile isWord = [] ∨
    ∀ c ∈ (afterName (stripStart t)).head?, c ≠ '{'

section Calm

variable {t w : List Char}

theorem Calm.blank_append (h : Calm t) (hw : ∀ c ∈ w, isBlank c = true) : Calm (w ++ t) := by
  have hstrip : stripStart (w ++ t) = stripStart t := stripStart_append hw
  exact ⟨hstrip ▸ h.no_brace, hstrip ▸ h.no_block⟩

/-- A text that starts with neither a name nor a brace is calm. -/
theorem calm_of_head (h : ∀ c ∈ t.head?, isBlank c = false ∧ isWord c = false ∧ c ≠ '{') :
    Calm t := by
  have hstrip : stripStart t = t := stripStart_eq_self fun c hc => (h c hc).1
  refine ⟨fun c hc => (h c (hstrip ▸ hc)).2.2, Or.inl ?_⟩
  rw [hstrip]
  exact takeWhile_append (w := []) (by simp) fun c hc => (h c hc).2.1

/-- A text that starts with a name is calm if no brace follows. -/
theorem calm_name_append (i : Word) (hword : ∀ c ∈ t.head?, isWord c = false)
    (hbrace : ∀ c ∈ (stripStart t).head?, c ≠ '{') : Calm (i.chars ++ t) := by
  have hstrip : stripStart (i.chars ++ t) = i.chars ++ t := stripStart_eq_self (i.head_append t)
  refine ⟨fun c hc => ?_, Or.inr ?_⟩
  · rintro rfl
    rw [hstrip] at hc
    exact absurd (i.head_word t _ hc) (by decide)
  · rwa [hstrip, afterName_append i.word hword]

/-- The head of a block makes a calm text: the name of the block stands in front of its brace. -/
theorem Heading.calm_append (h : Heading) (kind : BlockKind) (t : List Char) :
    Calm (h.chars kind ++ t) := by
  simp only [Heading.chars, List.append_assoc]
  refine calm_name_append ⟨_, kind.keyword_ne_nil, kind.word⟩ (h.gap.head_append _) ?_
  rw [h.stripStart_name _ h.gap.blank]
  rintro c hc rfl
  exact absurd (h.name.head_word _ _ hc) (by decide)

theorem Filler.text_cases (f : Filler) :
    f.text = [] ∨ ∃ c rest, f.text = c :: rest ∧ (c = '/' ∨ c = '@') := by
  rcases f.ignored with h | h | h
  · exact Or.inl h
  · obtain ⟨rest, hrest⟩ := List.isPrefixOf_iff_prefix.mp h
    exact Or.inr ⟨'/', _, hrest.symm, Or.inl rfl⟩
  · obtain ⟨rest, hrest⟩ := List.isPrefixOf_iff_prefix.mp h
    exact Or.inr ⟨'@', _, hrest.symm, Or.inr rfl⟩

/-- Attributes and comments start with neither a name nor a brace. -/
theorem head_of_attribute {c : Char} (h : c = '@' ∨ c = '/') :
    isBlank c = false ∧ isWord c = false ∧ c ≠ '{' := by
  rcases h with rfl | rfl <;> decide

theorem Filler.calm_append (f : Filler) (h : Calm t) : Calm (f.chars ++ t) := by
  rw [Filler.chars, List.append_assoc]
  refine Calm.blank_append ?_ f.indent.blank
  rcases f.text_cases with htext | ⟨c, rest, htext, hc⟩
  · rwa [htext]
  · rw [htext]
    exact calm_of_head (forall_head?_cons (head_of_attribute hc.symm))

theorem Mark.calm_append (m : Mark) (h : Calm t) : Calm (m.chars ++ t) := by
  cases m with
  | single => exact h
  | list => exact calm_of_head (forall_head?_cons (by decide))
  | optional => exact calm_of_head (forall_head?_cons (by decide))

theorem Mark.head_append (m : Mark) (h : ∀ c ∈ t.head?, isWord c = false) :
    ∀ c ∈ (m.chars ++ t).head?, isWord c = false := by
  cases m with
  | single => exact h
  | list => exact forall_head?_cons (by decide)
  | optional => exact forall_head?_cons (by decide)

theorem Trailing.calm_append (a : Trailing) (h : Calm t) : Calm (a.chars ++ t) := by
  have hblank : ∀ c ∈ a.chars.takeWhile isBlank, isBlank c = true := fun c hc =>
    List.mem_takeWhile_imp hc
  have hsplit : a.chars ++ t = a.chars.takeWhile isBlank ++ (stripStart a.chars ++ t) := by
    rw [← List.append_assoc, stripStart, List.takeWhile_append_dropWhile]
  rw [hsplit]
  refine Calm.blank_append ?_ hblank
  cases hrest : stripStart a.chars with
  | nil => exact h
  | cons c rest =>
    exact calm_of_head (forall_head?_cons (head_of_attribute (a.opening c (by rw [hrest]; rfl))))

theorem Trailing.head_cases (a : Trailing) :
    ∀ c ∈ a.chars.head?, isBlank c = true ∨ c = '@' ∨ c = '/' := by
  intro c hc
  by_cases hblank : isBlank c = true
  · exact Or.inl hblank
  · have hstrip : stripStart a.chars = a.chars := stripStart_eq_self fun x hx => by
      rw [← Option.mem_unique hc hx]
      simpa using hblank
    exact Or.inr (a.opening c (by rwa [hstrip]))

theorem Trailing.head_append (a : Trailing) (h : ∀ c ∈ t.head?, isWord c = false) :
    ∀ c ∈ (a.chars ++ t).head?, isWord c = false := by
  have hcases := a.head_cases
  cases ha : a.chars with
  | nil => exact h
  | cons x rest =>
    rw [ha] at hcases
    refine forall_head?_cons ?_
    exact (hcases x rfl).elim isWord_eq_false_of_isBlank fun hx => (head_of_attribute hx).2.1

theorem HeadText.behind_keyword (h : HeadText) (t : List Char) :
    ∀ c ∈ (h.gap.chars ++ t).head?, isWord c = false :=
  h.heading.gap.head_append t

theorem FieldText.behind_name (f : FieldText) (t : List Char) :
    ∀ c ∈ (f.gap.chars ++ t).head?, isWord c = false :=
  Gap.head_append ⟨f.gap.toBlanks, f.gap_ne_nil⟩ t

/-- What follows the name of a field is calm. -/
theorem FieldText.calm_append (f : FieldText) (hword : ∀ c ∈ t.head?, isWord c = false)
    (h : Calm t) : Calm (f.gap.chars ++ (f.type.chars ++ (f.rest ++ t))) := by
  refine Calm.blank_append ?_ f.gap.blank
  rw [FieldText.rest, List.append_assoc]
  exact calm_name_append f.type (f.mark.head_append (f.trailing.head_append hword))
    (f.mark.calm_append (f.trailing.calm_append h)).no_brace

/-- **A line in front of a calm text makes a calm text.** -/
theorem Line.calm_append (l : Line) (hword : ∀ c ∈ t.head?, isWord c = false) (h : Calm t) :
    Calm (l.text ++ t) := by
  cases l with
  | filler f => exact f.calm_append h
  | field f =>
    simp only [Line.text, FieldText.chars, List.append_assoc]
    refine Calm.blank_append ?_ f.indent.blank
    exact calm_name_append f.name (f.behind_name _) (f.calm_append hword h).no_brace
  | value v =>
    simp only [Line.text, ValueText.chars, List.append_assoc]
    refine Calm.blank_append ?_ v.indent.blank
    exact calm_name_append v.name (v.trailing.head_append hword) (v.trailing.calm_append h).no_brace
  | head kind b tail =>
    rw [Line.text, List.append_assoc]
    exact b.heading.calm_append kind (tail.chars ++ t)
  | close tail => exact calm_of_head (forall_head?_cons (by decide))

theorem head_linesAfter (lines : List (List Char)) :
    ∀ c ∈ (linesAfter lines).head?, isWord c = false := by
  cases lines with
  | nil => exact fun c hc => nomatch hc
  | cons line lines => exact forall_head?_cons (by decide)

/-- **What follows a line is calm.** -/
theorem calm_linesAfter (ls : List Line) : Calm (linesAfter (ls.map Line.text)) := by
  induction ls with
  | nil => exact calm_of_head fun c hc => nomatch hc
  | cons l ls ih =>
    rw [List.map_cons, linesAfter_cons]
    exact Calm.blank_append (w := ['\n']) (l.calm_append (head_linesAfter _) ih)
      (List.forall_mem_singleton.mpr (by decide))

end Calm

/-! ## Lines that open no block -/

section NotOpens

variable {kind : BlockKind} {t : List Char}

theorem not_opens_of_head (h : ∀ c ∈ t.head?, isWord c = false) : ¬ Opens kind t := by
  intro hopens
  have hstop : t.takeWhile isWord = [] := takeWhile_append (w := []) (by simp) h
  exact kind.keyword_ne_nil ((hopens.read).1.symm.trans hstop)

theorem not_opens_blank_append {w : List Char} (hw : ∀ c ∈ w, isBlank c = true)
    (h : ¬ Opens kind t) : ¬ Opens kind (w ++ t) := by
  by_cases hne : w = []
  · rwa [hne]
  · exact not_opens_of_head (Gap.head_append ⟨⟨w, hw⟩, hne⟩ t)

/-- A name opens no block in front of a calm text, even if it is a keyword. -/
theorem not_opens_name_append (i : Word) (hword : ∀ c ∈ t.head?, isWord c = false)
    (h : Calm t) : ¬ Opens kind (i.chars ++ t) := by
  intro hopens
  obtain ⟨-, hname, hbrace⟩ := hopens.read
  rw [afterName_append i.word hword] at hname hbrace
  rcases h.no_block with hnone | hnone
  · exact hname hnone
  · exact hnone '{' hbrace rfl

/-- The head of a block of the other kind opens none of this kind. -/
theorem not_opens_of_ne {other : BlockKind} (hne : other ≠ kind) (b : HeadText) :
    ¬ Opens kind (b.chars other ++ t) := by
  intro hopens
  have hread := (hopens.read).1
  rw [HeadText.chars, List.append_assoc, List.append_assoc,
    takeWhile_append other.word (b.behind_keyword _)] at hread
  cases kind <;> cases other <;> first | exact hne rfl | exact absurd hread (by decide)

/-- **A line opens no block of which it is not the head.** -/
theorem Line.not_opens (l : Line) (hhead : l.head? kind = none) (ls : List Line) :
    ¬ Opens kind (l.text ++ linesAfter (ls.map Line.text)) := by
  have hword := head_linesAfter (ls.map Line.text)
  have hcalm := calm_linesAfter ls
  cases l with
  | filler f =>
    rw [Line.text, Filler.chars, List.append_assoc]
    refine not_opens_blank_append f.indent.blank (not_opens_of_head ?_)
    rcases f.text_cases with htext | ⟨c, rest, htext, hc⟩
    · rwa [htext]
    · rw [htext]
      exact forall_head?_cons (head_of_attribute hc.symm).2.1
  | field f =>
    simp only [Line.text, FieldText.chars, List.append_assoc]
    refine not_opens_blank_append f.indent.blank (not_opens_name_append f.name ?_ ?_)
    · exact f.behind_name _
    · exact f.calm_append hword hcalm
  | value v =>
    simp only [Line.text, ValueText.chars, List.append_assoc]
    exact not_opens_blank_append v.indent.blank (not_opens_name_append v.name
      (v.trailing.head_append hword) (v.trailing.calm_append hcalm))
  | head other b tail =>
    rw [Line.text, List.append_assoc]
    refine not_opens_of_ne (fun heq => ?_) b
    rw [Line.head?, if_pos heq] at hhead
    cases hhead
  | close tail => exact not_opens_of_head (forall_head?_cons (by decide))

end NotOpens

end PlanAudit.Prisma
