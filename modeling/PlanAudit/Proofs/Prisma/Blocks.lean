import PlanAudit.Prisma.Schema
import PlanAudit.Proofs.Pattern.Choices

/-!
# Finding blocks

A block is opened by a keyword at the start of a line, a name and a brace, and a model is closed by
the first brace at the start of a line. Names and white space share no character, so that a head can
be read in one way only.

## Main definitions

* `Spacing`, `HeadText`: the parts of the head of a block, as they are written
* `Heading`: the head of a block in any text
* `Opens`: a text that starts with the head of a block
* `blockHead`: the pattern of a head

## Main results

* `Opens.read`: the first words of a text that opens a block
* `Heads.matchHere_eq_none`: no block is found where none is opened
* `exists_matchHere_enumHead`, `exists_matchHere_heading`: the block that is found where one is
  opened
-/

namespace PlanAudit.Prisma

open Text Pattern

/-! ## The head of a block -/

/-- The kinds of blocks. -/
inductive BlockKind where
  /-- A model with fields. -/
  | model
  /-- An enumeration with values. -/
  | enum
  deriving DecidableEq, Repr

/-- The keyword in front of a block. -/
def BlockKind.keyword : BlockKind → String
  | .model => "model"
  | .enum => "enum"

theorem BlockKind.word (k : BlockKind) : ∀ c ∈ k.keyword.toList, isWord c = true :=
  List.all_eq_true.mp (by cases k <;> decide)

theorem BlockKind.keyword_ne_nil (k : BlockKind) : k.keyword.toList ≠ [] := by cases k <;> decide

/-- White space inside a line. -/
structure Spacing extends Blanks where
  /-- None of the characters ends the line. -/
  unbroken : '\n' ∉ chars

/-- The head of a block in any text: its white space may break the line. -/
structure Heading where
  /-- What stands between the keyword and the name. -/
  gap : Gap
  /-- The name of the block. -/
  name : Word
  /-- What stands between the name and the brace. -/
  space : Blanks

/-- The head, up to its brace, of a block of the kind. -/
def Heading.chars (h : Heading) (kind : BlockKind) : List Char :=
  kind.keyword.toList ++ (h.gap.chars ++ (h.name.chars ++ (h.space.chars ++ ['{'])))

theorem Heading.getLast?_chars (h : Heading) (kind : BlockKind) :
    (h.chars kind).getLast? = some '{' := by
  simp only [Heading.chars, ← List.append_assoc, List.getLast?_concat]

/-- What the head of a block is written with, up to its brace. -/
structure HeadText where
  /-- What stands between the keyword and the name. -/
  gap : Spacing
  /-- The two are apart. -/
  gap_ne_nil : gap.chars ≠ []
  /-- The name of the block. -/
  name : Word
  /-- What stands between the name and the brace. -/
  space : Spacing

/-- The head of a block of the kind. -/
def HeadText.chars (h : HeadText) (kind : BlockKind) : List Char :=
  kind.keyword.toList ++ (h.gap.chars ++ (h.name.chars ++ (h.space.chars ++ ['{'])))

/-- A head on one line is a head. -/
def HeadText.heading (h : HeadText) : Heading :=
  ⟨⟨h.gap.toBlanks, h.gap_ne_nil⟩, h.name, h.space.toBlanks⟩

/-! ## Texts that open a block -/

/-- The text starts with the head of a block of the kind. -/
def Opens (kind : BlockKind) (text : List Char) : Prop :=
  ∃ h : Heading, ∃ rest, text = h.chars kind ++ rest

section Read

variable (h : Heading) (t : List Char)

theorem Heading.behind_name :
    ∀ c ∈ (h.space.chars ++ '{' :: t).head?, isWord c = false :=
  h.space.head_append (forall_head?_cons rfl)

/-- Behind the name of a block and white space its brace stands. -/
theorem Heading.afterName_name :
    afterName (h.name.chars ++ (h.space.chars ++ '{' :: t)) = '{' :: t := by
  rw [afterName_append h.name.word (h.behind_name t), stripStart_append h.space.blank,
    stripStart_eq_self (forall_head?_cons rfl)]

/-- Behind white space the name of a block is read. -/
theorem Heading.stripStart_name {w : List Char} (hw : ∀ c ∈ w, isBlank c = true) :
    stripStart (w ++ (h.name.chars ++ t)) = h.name.chars ++ t := by
  rw [stripStart_append hw, stripStart_eq_self (h.name.head_append t)]

/-- **The first words of a text that opens a block** are the keyword and a name, and a brace
follows. -/
theorem Opens.read {kind : BlockKind} {text : List Char} (hopens : Opens kind text) :
    text.takeWhile isWord = kind.keyword.toList ∧ (afterName text).takeWhile isWord ≠ [] ∧
      (afterName (afterName text)).head? = some '{' := by
  obtain ⟨h, rest, rfl⟩ := hopens
  simp only [Heading.chars, List.append_assoc, List.singleton_append]
  have hafter : afterName (kind.keyword.toList ++
      (h.gap.chars ++ (h.name.chars ++ (h.space.chars ++ '{' :: rest)))) =
        h.name.chars ++ (h.space.chars ++ '{' :: rest) := by
    rw [afterName_append kind.word (h.gap.head_append _), h.stripStart_name _ h.gap.blank]
  refine ⟨takeWhile_append kind.word (h.gap.head_append _), ?_, ?_⟩
  · rw [hafter, takeWhile_append h.name.word (h.behind_name rest)]
    exact h.name.ne_nil
  · rw [hafter, h.afterName_name]
    rfl

end Read

/-! ## Patterns that start with a head -/

/-- The pattern of the head of a block of the kind. -/
def blockHead (kind : BlockKind) : Pattern :=
  lineStart ++ lit kind.keyword ++ blanks1 ++ capture 1 Pattern.name ++ blanks ++ char '{'

/-- Every match of the pattern starts with the head of a block of the kind. -/
def Heads (kind : BlockKind) (p : Pattern) : Prop :=
  ∀ c d, d ∈ p.outcomes c → StartsLine c.before ∧ Opens kind c.rest

/-- **The head that a match of it reads.** -/
theorem exists_heading_of_mem_blockHead (kind : BlockKind) {c d : Cursor}
    (hd : d ∈ (blockHead kind).outcomes c) :
    StartsLine c.before ∧ d.before = some '{' ∧
      ∃ h : Heading, c.rest = h.chars kind ++ d.rest := by
  obtain ⟨c₅, hd, hbrace⟩ := mem_outcomes_append.mp hd
  obtain ⟨c₄, hd, hspace⟩ := mem_outcomes_append.mp hd
  obtain ⟨c₃, hd, hname⟩ := mem_outcomes_append.mp hd
  obtain ⟨c₂, hd, hgap⟩ := mem_outcomes_append.mp hd
  obtain ⟨c₁, hstart, hkeyword⟩ := mem_outcomes_append.mp hd
  obtain ⟨hstart, rfl⟩ := mem_outcomes_here.mp hstart
  -- Each part reads a word of its own characters.
  obtain ⟨gap, hgap⟩ := exists_gap_of_mem_blanks1 hgap
  obtain ⟨name, hname, -⟩ := exists_word_of_mem_capture hname
  obtain ⟨space, hspace, hspaceBlank⟩ := exists_reads_of_mem_blanks hspace
  obtain ⟨x, rest, hx, hxbrace, rfl⟩ := mem_outcomes_one.mp hbrace
  obtain rfl : x = '{' := by simpa using hxbrace
  have hrest : c₄.rest = space ++ '{' :: rest := hspace.rest_eq.trans (congrArg _ hx)
  refine ⟨startsLine_iff.mp hstart, rfl, ⟨gap, name, ⟨space, hspaceBlank⟩⟩, ?_⟩
  rw [(reads_of_mem_lit hkeyword).rest_eq, hgap.rest_eq, hname.rest_eq]
  simpa [Heading.chars, Cursor.advance] using hrest

theorem heads_blockHead (kind : BlockKind) : Heads kind (blockHead kind) := by
  intro c d hd
  obtain ⟨hstart, -, h, hrest⟩ := exists_heading_of_mem_blockHead kind hd
  exact ⟨hstart, h, d.rest, hrest⟩

theorem Heads.append {kind : BlockKind} {p : Pattern} (hp : Heads kind p) (q : Pattern) :
    Heads kind (p ++ q) := by
  intro c d hd
  obtain ⟨e, he, -⟩ := mem_outcomes_append.mp hd
  exact hp c e he

theorem heads_enumHead : Heads .enum enumHead := heads_blockHead .enum

theorem heads_modelBlock : Heads .model modelBlock :=
  (((heads_blockHead .model).append _).append _).append _

section Heads

variable {kind : BlockKind} {p : Pattern}

theorem Heads.atLineStart (hp : Heads kind p) : p.AtLineStart := by
  intro before offset rest h
  obtain ⟨m, hm⟩ := Option.isSome_iff_exists.mp h
  obtain ⟨d, hd, -⟩ := exists_outcome_of_matchHere hm
  exact (hp _ d hd).1

/-- **No block is found where none is opened.** -/
theorem Heads.matchHere_eq_none (hp : Heads kind p) {before : Option Char} {offset : Nat}
    {rest : List Char} (h : ¬ Opens kind rest) : p.matchHere before offset rest = none := by
  by_contra hm
  obtain ⟨m, hm⟩ := Option.ne_none_iff_exists'.mp hm
  obtain ⟨d, hd, -⟩ := exists_outcome_of_matchHere hm
  exact h (hp _ d hd).2

end Heads

/-! ## Blocks that are opened -/

/-- The capture of the name in the head of a block at `c`. -/
def Heading.capture (h : Heading) (kind : BlockKind) (c : Cursor) (rest : List Char) : Capture :=
  ⟨1, c.offset + (kind.keyword.toList ++ h.gap.chars).length,
    c.offset + (kind.keyword.toList ++ h.gap.chars).length + h.name.chars.length,
    h.name.chars ++ (h.space.chars ++ '{' :: rest)⟩

/-- The cursor behind the head of a block at `c`. -/
def Heading.behind (h : Heading) (kind : BlockKind) (c : Cursor) (rest : List Char) : Cursor :=
  { c.behind (h.chars kind) rest with captures := h.capture kind c rest :: c.captures }

theorem run_blockHead {α : Type} (kind : BlockKind) (h : Heading) {c : Cursor} {rest : List Char}
    {next : Cursor → Option α} {a : α} (hstart : StartsLine c.before)
    (hrest : c.rest = h.chars kind ++ rest) (hnext : next (h.behind kind c rest) = some a) :
    (blockHead kind).run c next = some a := by
  have hrun : (blockHead kind).run c next =
      if c.before.isNone || c.before == some '\n' then
        (lit kind.keyword ++ blanks1).run c fun d =>
          Pattern.name.run d fun e => (blanks ++ char '{').run (e.record 1 d) next
      else none := rfl
  have hgap : (lit kind.keyword ++ blanks1).Takes (kind.keyword.toList ++ h.gap.chars)
      (h.name.chars ++ (h.space.chars ++ '{' :: rest)) :=
    (takes_lit kind.keyword).append
      (takes_gap h.gap (h.name.head_append _))
  have hname : Pattern.name.Takes h.name.chars (h.space.chars ++ '{' :: rest) :=
    takes_word h.name (h.behind_name rest)
  have hspace : (blanks ++ char '{').Takes (h.space.chars ++ ['{']) rest :=
    (takes_blanks h.space.blank (forall_head?_cons rfl)).append (takes_char '{')
  rw [hrun, if_pos (startsLine_iff.mpr hstart)]
  refine hgap α c _ a (by rw [hrest]; simp [Heading.chars]) ?_
  refine hname α _ _ a rfl ?_
  refine hspace α _ next a (by simp [Cursor.record]) (Eq.trans ?_ hnext)
  simp [Heading.behind, Heading.capture, Heading.chars, Cursor.behind, Cursor.record,
    Nat.add_assoc]

theorem text_capture {h : Heading} {kind : BlockKind} {c : Cursor} {rest : List Char} :
    (h.capture kind c rest).text = h.name.chars :=
  Capture.text_eq

/-- **The enumeration that is found where one is opened.** -/
theorem exists_matchHere_enumHead (h : HeadText) {before : Option Char} (hstart : StartsLine before)
    (offset : Nat) (rest : List Char) :
    ∃ m, enumHead.matchHere before offset (h.chars .enum ++ rest) = some m ∧
      m.stop = offset + (h.chars .enum).length ∧ m.name 1 = h.name.string := by
  exact ⟨_, run_blockHead .enum h.heading hstart rfl rfl, rfl, congrArg String.ofList text_capture⟩

/-- **The model that is found where one is opened** reaches to the first brace behind a line feed.
-/
theorem exists_matchHere_heading (h : Heading) {before : Option Char}
    (hstart : StartsLine before) (offset : Nat) (body after : List Char)
    (hbody : ¬ ['\n', '}'] <:+: body) (hfeed : body.getLast? = some '\n') :
    ∃ m, modelBlock.matchHere before offset (h.chars .model ++ (body ++ '}' :: after)) = some m ∧
      m.stop = offset + (h.chars .model ++ (body ++ ['}'])).length ∧ m.name 1 = h.name.string ∧
      m.group 2 = body := by
  refine ⟨_, run_blockHead .model h hstart rfl
    (run_body hbody hfeed (by simp [Heading.behind, h.getLast?_chars]) rfl rfl), ?_, ?_, ?_⟩
  · simp [Heading.behind, Cursor.record, Nat.add_assoc]
  · exact congrArg String.ofList text_capture
  · exact Capture.text_eq

/-- The same where no line of its body starts with a brace. -/
theorem exists_matchHere_modelBlock (h : HeadText) {before : Option Char}
    (hstart : StartsLine before) (offset : Nat) (body after : List Char)
    (hbody : ∀ part ∈ body.splitOn '\n', part.head? ≠ some '}')
    (hfeed : body.getLast? = some '\n') :
    ∃ m, modelBlock.matchHere before offset (h.chars .model ++ (body ++ '}' :: after)) = some m ∧
      m.stop = offset + (h.chars .model ++ (body ++ ['}'])).length ∧ m.name 1 = h.name.string ∧
      m.group 2 = body :=
  exists_matchHere_heading h.heading hstart offset body after (not_infix_of_parts hbody) hfeed

end PlanAudit.Prisma
