import PlanAudit.Proofs.Catalog
import PlanAudit.Proofs.Pattern.Leftmost
import PlanAudit.Proofs.Sql.StatementText

/-!
# Tables that are read of statements

A part of a body is read as a column if it starts with two words, once the first two quotation marks
in it are dropped, unless the first of them starts a constraint.  Since the marks are dropped before
the words are looked at, a column between marks whose name would start a constraint is left out, and
a mark between two words is no white space between them.

## Main definitions

* `TwoWords`: a text starts with two words that white space tells apart
* `ColumnText.Legible`, `ConstraintText.Recognized`, `StatementText.Alone`: what reading a statement
  depends on
* `StatementText.ReadAsWritten`: the statement is read as one table with the columns that it lists

## Main results

* `columnOf?_eq_some_iff`: what is read of a part
* `ColumnText.columnOf?_eq_iff`, `ConstraintText.columnOf?_eq_none_iff`: a column and a constraint
* `readAsWritten_iff`: which statements are read as they are written
* `reserved_column_lost`: one that is not
-/

namespace PlanAudit.Sql

open Text Pattern

/-! ## Two words -/

/-- The text starts with two words that white space tells apart. -/
inductive TwoWords : List Char → Word → Word → Prop
  | intro (a b : Word) (gap : Gap) {rest : List Char} (hrest : ∀ x ∈ rest.head?, isWord x = false) :
      TwoWords (a.chars ++ (gap.chars ++ (b.chars ++ rest))) a b

section TwoWords

variable {text : List Char} {a b : Word}

/-- The two words that a text starts with are read. -/
theorem TwoWords.exists_matchStart (h : TwoWords text a b) :
    ∃ m, columnHead.matchStart text = some m ∧ m.name 1 = a.string ∧ m.name 2 = b.string := by
  obtain @⟨_, _, gap, rest, hrest⟩ := h
  generalize htext : a.chars ++ (gap.chars ++ (b.chars ++ rest)) = text
  let start : Cursor := ⟨none, 0, text, []⟩
  have hrun : columnHead.matchStart text =
      Pattern.name.run start fun e => blanks1.run (e.record 1 start) fun f =>
        Pattern.name.run f fun g => some ⟨0, (g.record 2 f).offset, text,
          (g.record 2 f).captures⟩ := rfl
  -- Each piece takes all that it can, because what follows it is of another kind.
  have hfirst : Pattern.name.Takes a.chars (gap.chars ++ (b.chars ++ rest)) :=
    takes_word a (gap.head_append _)
  have hbetween : blanks1.Takes gap.chars (b.chars ++ rest) :=
    takes_gap gap (b.head_append rest)
  have hsecond : Pattern.name.Takes b.chars rest := takes_word b hrest
  refine ⟨_, hrun.trans (hfirst _ _ _ _ htext.symm (hbetween _ _ _ _ rfl
    (hsecond _ _ _ _ rfl rfl))), ?_, ?_⟩
  · have hgroup : (Capture.mk 1 0 (0 + a.chars.length)
        (a.chars ++ (gap.chars ++ (b.chars ++ rest)))).text = a.chars := Capture.text_eq
    rw [htext] at hgroup
    exact congrArg String.ofList hgroup
  · exact congrArg String.ofList Capture.text_eq

/-- What is read are two words that the text starts with. -/
theorem exists_twoWords {m : Match} (h : columnHead.matchStart text = some m) :
    ∃ a b, TwoWords text a b := by
  obtain ⟨d, hd, -⟩ := exists_outcome_of_matchHere h
  obtain ⟨f, hf, hsecond⟩ := mem_outcomes_append.mp hd
  obtain ⟨e, he, hbetween⟩ := mem_outcomes_append.mp hf
  obtain ⟨v, hv, -⟩ := exists_word_of_mem_capture he
  obtain ⟨gap, hgap⟩ := exists_gap_of_mem_blanks1 hbetween
  obtain ⟨w, hw, -⟩ := exists_word_of_mem_capture hsecond
  have htext : text = v.chars ++ e.rest := hv.rest_eq
  have hrest : e.rest = gap.chars ++ f.rest := hgap.rest_eq
  -- The second word goes on as far as there are characters of a word.
  have hne : f.rest.takeWhile isWord ≠ [] := by
    obtain ⟨x, r, hx, hword⟩ := w.exists_cons
    rw [hw.rest_eq, hx, List.cons_append, List.takeWhile_cons_of_pos hword]
    exact List.cons_ne_nil _ _
  have hstop : ∀ x ∈ (f.rest.dropWhile isWord).head?, isWord x = false := by
    intro x hx
    have hnot := List.head?_dropWhile_not isWord f.rest
    rwa [Option.mem_def.mp hx] at hnot
  let second : Word := ⟨f.rest.takeWhile isWord, hne, fun _ => List.mem_takeWhile_imp⟩
  refine ⟨v, second, ?_⟩
  have hwords := TwoWords.intro v second gap hstop
  rwa [List.takeWhile_append_dropWhile, ← hrest, ← htext] at hwords

end TwoWords

/-! ## What is read of a part -/

/-- **What is read of a part** are the two words that it starts with once two marks are dropped, if
the first does not start a constraint. -/
theorem columnOf?_eq_some_iff {part : List Char} {p : String × String} :
    columnOf? part = some p ↔ ∃ a b, TwoWords (dropQuotes 2 (strip part)) a b ∧ ¬ Reserved a ∧
      p = (a.string, b.string) := by
  unfold columnOf?
  cases hmatch : columnHead.matchStart (dropQuotes 2 (strip part)) with
  | none =>
    refine ⟨nofun, ?_⟩
    rintro ⟨a, b, hwords, -, -⟩
    obtain ⟨m, hm, -, -⟩ := hwords.exists_matchStart
    rw [hmatch] at hm
    cases hm
  | some m =>
    -- The words are those that the match has recorded.
    have hread : ∀ {a b}, TwoWords (dropQuotes 2 (strip part)) a b →
        m.name 1 = a.string ∧ m.name 2 = b.string := by
      intro a b hwords
      obtain ⟨m', hm, hfirst, hsecond⟩ := hwords.exists_matchStart
      rw [hmatch] at hm
      obtain rfl := Option.some.inj hm
      exact ⟨hfirst, hsecond⟩
    have hreserved : ∀ {a : Word}, m.name 1 = a.string →
        (constraintKeywords.contains (lowerCase (m.name 1)) = true ↔ Reserved a) := by
      intro a ha
      rw [ha, List.contains_iff_mem]
      rfl
    dsimp only
    constructor
    · intro h
      obtain ⟨a, b, hwords⟩ := exists_twoWords hmatch
      obtain ⟨hfirst, hsecond⟩ := hread hwords
      split at h
      · cases h
      · rename_i hfree
        refine ⟨a, b, hwords, mt (hreserved hfirst).mpr hfree, ?_⟩
        rw [← Option.some.inj h, hfirst, hsecond]
    · rintro ⟨a, b, hwords, hfree, rfl⟩
      obtain ⟨hfirst, hsecond⟩ := hread hwords
      rw [if_neg (mt (hreserved hfirst).mp hfree), hfirst, hsecond]

theorem columnOf?_eq_none_iff {part : List Char} : columnOf? part = none ↔
    ∀ a b, TwoWords (dropQuotes 2 (strip part)) a b → Reserved a := by
  rw [Option.eq_none_iff_forall_ne_some]
  constructor
  · intro h a b hwords
    by_contra hfree
    exact h (a.string, b.string) (columnOf?_eq_some_iff.mpr ⟨a, b, hwords, hfree, rfl⟩)
  · intro h p hp
    obtain ⟨a, b, hwords, hfree, -⟩ := columnOf?_eq_some_iff.mp hp
    exact hfree (h a b hwords)

/-! ### White space around a definition -/

theorem Tail.last_append (t : Tail) (n : Word) (u : List Char) :
    ∀ x ∈ (u ++ (n.chars ++ t.chars)).getLast?, isBlank x = false := by
  have hne : n.chars ++ t.chars ≠ [] := List.append_ne_nil_of_left_ne_nil n.ne_nil _
  rw [List.getLast?_append_of_ne_nil _ hne, List.getLast?_append]
  intro x hx
  cases hlast : t.chars.getLast? with
  | none =>
    rw [hlast, Option.none_or] at hx
    exact isBlank_eq_false_of_isWord (n.word x (List.mem_of_getLast? hx))
  | some y =>
    rw [hlast, Option.some_or] at hx
    obtain rfl : y = x := Option.some.inj hx
    exact t.last y hlast

theorem Definition.head_chars (d : Definition) : ∀ x ∈ d.chars.head?, isBlank x = false := by
  cases d with
  | column c =>
    refine forall_head?_append (fun x hx => ?_) (c.name.head_append _)
    revert x
    cases c.quoting <;> decide
  | constraint k => exact k.keyword.head_append _

theorem Definition.last_chars (d : Definition) : ∀ x ∈ d.chars.getLast?, isBlank x = false := by
  cases d with
  | column c =>
    have hlast := c.tail.last_append c.type
      (c.quoting.mark ++ c.name.chars ++ c.quoting.mark ++ c.gap.chars)
    simpa [Definition.chars, ColumnText.chars] using hlast
  | constraint k => exact k.rest.last_append k.keyword []

/-- The white space around a definition does not belong to it. -/
theorem BodyPart.strip_chars (p : BodyPart) : strip p.chars = p.definition.chars :=
  strip_between p.indent.blank p.space.blank p.definition.chars_ne_nil p.definition.head_chars
    p.definition.last_chars

/-- What is read of a part depends on the definition alone. -/
theorem BodyPart.columnOf?_chars (p : BodyPart) :
    columnOf? p.chars = columnOf? p.definition.chars := by
  have hstrip : strip p.definition.chars = p.definition.chars := by
    have hbare := strip_between (v := []) (t := []) (by simp) (by simp) p.definition.chars_ne_nil
      p.definition.head_chars p.definition.last_chars
    rwa [List.nil_append, List.append_nil] at hbare
  rw [columnOf?, columnOf?, p.strip_chars, hstrip]

/-! ### Columns -/

namespace ColumnText

variable (c : ColumnText)

/-- What is left behind the type once two marks are dropped: marks around the name are the first
ones. -/
def readTail : List Char :=
  match c.quoting with
  | .plain => dropQuotes 2 c.tail.chars
  | _ => c.tail.chars

/-- The column can be read: between marks, if white space stands behind the name and the name does
not start a constraint; without marks, if the first two marks behind the type leave no character of
a word there. -/
def Legible : Prop :=
  match c.quoting with
  | .plain => ∀ x ∈ (dropQuotes 2 c.tail.chars).head?, isWord x = false
  | _ => c.gap.chars ≠ [] ∧ ¬ Reserved c.name

theorem legible_iff : c.Legible ↔ c.gap.chars ≠ [] ∧ ¬ Reserved c.name ∧
    ∀ x ∈ c.readTail.head?, isWord x = false := by
  unfold Legible readTail
  have hgap := c.gap_ne_nil
  have hfree := c.unreserved
  have htail := c.tail.head
  cases hquoting : c.quoting with
  | plain => simp only [hgap hquoting, hfree hquoting, ne_eq, not_false_iff, true_and]
  | double => exact ⟨fun h => ⟨h.1, h.2, htail⟩, fun h => ⟨h.1, h.2.1⟩⟩
  | grave => exact ⟨fun h => ⟨h.1, h.2, htail⟩, fun h => ⟨h.1, h.2.1⟩⟩

theorem dropQuotes_chars : dropQuotes 2 c.chars =
    c.name.chars ++ (c.gap.chars ++ (c.type.chars ++ c.readTail)) := by
  have hname := unmarked_word c.name
  unfold ColumnText.chars readTail
  cases c.quoting with
  | plain =>
    simp only [Quoting.mark, List.nil_append]
    rw [hname.dropQuotes, (unmarked_blanks c.gap).dropQuotes, (unmarked_word c.type).dropQuotes]
  | double =>
    simp only [Quoting.mark, List.singleton_append]
    rw [dropQuotes_mark rfl, hname.dropQuotes, dropQuotes_mark rfl, dropQuotes_zero]
  | grave =>
    simp only [Quoting.mark, List.singleton_append]
    rw [dropQuotes_mark rfl, hname.dropQuotes, dropQuotes_mark rfl, dropQuotes_zero]

/-- The words that the text of a column starts with are its name and its type, or there is none of
white space between these, or the type goes on. -/
theorem twoWords_iff : TwoWords (dropQuotes 2 c.chars) c.name c.type ↔
    c.gap.chars ≠ [] ∧ ∀ x ∈ c.readTail.head?, isWord x = false := by
  rw [dropQuotes_chars]
  constructor
  · intro h
    generalize htext : c.name.chars ++ (c.gap.chars ++ (c.type.chars ++ c.readTail)) = text at h
    obtain @⟨_, _, gap, rest, hrest⟩ := h
    have hbehind := List.append_cancel_left htext
    -- The longest run of white space behind the name is the same on both sides.
    have hsame : c.gap.chars = gap.chars := by
      have hrun := congrArg (List.takeWhile isBlank) hbehind
      rwa [takeWhile_append c.gap.blank (c.type.head_append _),
        takeWhile_append gap.blank (c.type.head_append _)] at hrun
    rw [hsame] at hbehind ⊢
    have htail := List.append_cancel_left (List.append_cancel_left hbehind)
    exact ⟨gap.ne_nil, htail ▸ hrest⟩
  · rintro ⟨hgap, hrest⟩
    exact .intro c.name c.type ⟨c.gap, hgap⟩ hrest

/-- **A column is read as it is written** exactly if it can be read. -/
theorem columnOf?_eq_iff {part : List Char} (hpart : strip part = c.chars) :
    columnOf? part = some (c.name.string, c.type.string) ↔ c.Legible := by
  rw [columnOf?_eq_some_iff, hpart, legible_iff]
  constructor
  · rintro ⟨a, b, hwords, hfree, hpair⟩
    obtain rfl := Word.string_injective (Prod.mk.inj hpair).1
    obtain rfl := Word.string_injective (Prod.mk.inj hpair).2
    obtain ⟨hgap, hrest⟩ := c.twoWords_iff.mp hwords
    exact ⟨hgap, hfree, hrest⟩
  · rintro ⟨hgap, hfree, hrest⟩
    exact ⟨c.name, c.type, c.twoWords_iff.mpr ⟨hgap, hrest⟩, hfree, rfl⟩

end ColumnText

/-! ### Constraints -/

/-- A word that starts a constraint does not when further characters of a word follow it. -/
theorem eq_nil_of_reserved {keyword name : Word} {w : List Char} (hkeyword : Reserved keyword)
    (hname : Reserved name) (hsplit : name.chars = keyword.chars ++ w) : w = [] := by
  have hascii : ∀ s ∈ constraintKeywords, ∀ x ∈ s.toList, x.toNat < 128 := by decide
  have hprefix : ∀ s ∈ constraintKeywords, ∀ r ∈ constraintKeywords,
      s.toList <+: r.toList → s = r := by decide
  have hlower : ∀ n : Word, (lowerCase n.string).toList = lowerAfter [] n.chars := by
    intro n
    rw [lowerCase, String.toList_ofList, n.toList_string, lower]
  -- In lower case the keyword is one of the words in ASCII, and so it starts the name.
  have hsigma : '\u03a3' ∉ keyword.chars :=
    sigma_notMem_of_lower (hlower keyword ▸ hascii _ hkeyword)
  have happend : (lowerCase name.string).toList =
      (lowerCase keyword.string).toList ++ lowerAfter (keyword.chars.reverse ++ []) w := by
    rw [hlower, hlower, hsplit, lowerAfter_append hsigma]
  have hsame := hprefix _ hkeyword _ hname ⟨_, happend.symm⟩
  by_contra hne
  rw [hsame] at happend
  have hnil := List.append_cancel_left (happend.symm.trans (List.append_nil _).symm)
  exact lowerAfter_ne_nil hne hnil

namespace ConstraintText

variable (k : ConstraintText)

/-- The constraint is told from a column: once two marks are dropped, no two words follow its
keyword immediately. -/
def Recognized : Prop := ∀ a b, ¬ TwoWords (dropQuotes 2 k.rest.chars) a b

/-- **No column is read of a constraint** exactly if it is told from one. -/
theorem columnOf?_eq_none_iff {part : List Char} (hpart : strip part = k.chars) :
    columnOf? part = none ↔ k.Recognized := by
  have hchars : dropQuotes 2 k.chars = k.keyword.chars ++ dropQuotes 2 k.rest.chars :=
    (unmarked_word k.keyword).dropQuotes 2
  rw [Sql.columnOf?_eq_none_iff, hpart, hchars]
  constructor
  · intro h a b hwords
    generalize htext : dropQuotes 2 k.rest.chars = text at h hwords
    obtain @⟨_, _, gap, rest, hrest⟩ := hwords
    -- The keyword and the first word together are one word.
    let joined : Word := ⟨k.keyword.chars ++ a.chars,
      List.append_ne_nil_of_left_ne_nil k.keyword.ne_nil _,
      fun x hx => (List.mem_append.mp hx).elim (k.keyword.word x) (a.word x)⟩
    have hjoined := TwoWords.intro joined b gap hrest
    rw [List.append_assoc] at hjoined
    exact a.ne_nil (eq_nil_of_reserved k.reserved (h joined b hjoined) rfl)
  · intro h a b hwords
    generalize htext : k.keyword.chars ++ dropQuotes 2 k.rest.chars = text at hwords
    obtain @⟨_, _, gap, rest, hrest⟩ := hwords
    by_contra hfree
    -- The first word is the keyword, or it goes on behind it, or it ends in the middle of it.
    rcases List.append_eq_append_iff.mp htext with ⟨w, hw, hbehind⟩ | ⟨w, hw, hbehind⟩
    · cases w with
      | nil =>
        rw [List.append_nil] at hw
        exact hfree (Word.ext hw ▸ k.reserved)
      | cons x w =>
        have hword : ∀ y ∈ x :: w, isWord y = true := fun y hy => a.word y (by rw [hw]; simp [hy])
        have hrest' := TwoWords.intro ⟨x :: w, List.cons_ne_nil x w, hword⟩ b gap hrest
        rw [← hbehind] at hrest'
        exact h _ _ hrest'
    · cases w with
      | nil =>
        rw [List.append_nil] at hw
        exact hfree (Word.ext hw ▸ k.reserved)
      | cons x w =>
        -- White space would stand in the keyword.
        obtain ⟨y, between, hy, hblank⟩ := gap.exists_cons
        rw [hy] at hbehind
        obtain ⟨rfl, -⟩ := List.cons.inj hbehind
        refine k.keyword.not_mem (isWord_eq_false_of_isBlank hblank) ?_
        rw [hw]
        simp

end ConstraintText

/-! ## What is read of a statement -/

/-- A reading of the parts of a list that finds nothing where another one finds nothing finds no
more than that one. -/
theorem length_filterMap_le {α β γ : Type} {f : α → Option β} {g : α → Option γ} {l : List α}
    (h : ∀ a ∈ l, g a = none → f a = none) :
    (l.filterMap f).length ≤ (l.filterMap g).length := by
  rw [List.length_filterMap_eq_countP, List.length_filterMap_eq_countP]
  refine List.countP_mono_left fun a ha hsome => ?_
  rw [Option.isSome_iff_ne_none] at hsome ⊢
  exact mt (h a ha) hsome

/-- Two readings of the parts of a list, of which the first finds nothing where the second finds
nothing, find the same exactly if they do in each part. -/
theorem filterMap_eq_filterMap_iff {α β : Type} {f g : α → Option β} {l : List α}
    (h : ∀ a ∈ l, g a = none → f a = none) :
    l.filterMap f = l.filterMap g ↔ ∀ a ∈ l, f a = g a := by
  refine ⟨fun heq => ?_, List.filterMap_congr⟩
  induction l with
  | nil => exact List.forall_mem_nil _
  | cons a l ih =>
    obtain ⟨ha, hl⟩ := List.forall_mem_cons.mp h
    have hlength := length_filterMap_le hl
    rw [List.filterMap_cons, List.filterMap_cons] at heq
    refine List.forall_mem_cons.mpr ?_
    cases hg : g a with
    | none =>
      have hf := ha hg
      rw [hf, hg] at heq
      exact ⟨hf, ih hl heq⟩
    | some y =>
      cases hf : f a with
      | none =>
        -- One part less is read than there is in the second reading.
        rw [hf, hg] at heq
        have hcount : (l.filterMap f).length = (l.filterMap g).length + 1 :=
          congrArg List.length heq
        omega
      | some x =>
        rw [hf, hg] at heq
        obtain ⟨rfl, hrest⟩ := List.cons.inj heq
        exact ⟨rfl, ih hl hrest⟩

/-- The name and the type of a column. -/
def ColumnText.pair (c : ColumnText) : String × String := (c.name.string, c.type.string)

namespace StatementText

variable (s : StatementText) (file : String)

/-- The columns that the statement lists, with their types. -/
def written : List (String × String) := s.columns.map ColumnText.pair

/-- The statement is read as one table with the columns that it lists, in their order, and no column
is read of any constraint. -/
def ReadAsWritten : Prop :=
  (∃ t, statementTables s.text file = [t] ∧ t.name = s.head.name.string ∧
    t.columns.entries = s.written ∧ t.source = .statement ∧ t.filePath = file) ∧
    ∀ k ∈ s.constraints, columnOf? k.chars = none

/-- No further head of a statement stands behind the first one. -/
def Alone : Prop := ∀ m, statementHead.StandsIn s.text m → m.start < s.head.chars.length

/-- The columns that are read of the parts of the body. -/
def readColumns : List (String × String) := s.parts.filterMap fun p => columnOf? p.chars

theorem written_eq : s.written = s.parts.filterMap fun p =>
    p.definition.column?.map ColumnText.pair := by
  rw [written, columns, List.map_filterMap]

theorem entries_ofList_written : (Catalog.ofList s.written).entries = s.written := by
  refine Catalog.entries_ofList ?_
  have hdistinct := s.distinct
  rwa [written, List.map_map]

theorem mem_columns_iff {c : ColumnText} :
    c ∈ s.columns ↔ ∃ p ∈ s.parts, p.definition = .column c := by
  have hcolumn : ∀ d : Definition, d.column? = some c ↔ d = .column c := by
    intro d
    cases d <;> simp [Definition.column?]
  simp only [columns, List.mem_filterMap, hcolumn]

theorem mem_constraints_iff {k : ConstraintText} :
    k ∈ s.constraints ↔ ∃ p ∈ s.parts, p.definition = .constraint k := by
  have hconstraint : ∀ d : Definition, d.constraint? = some k ↔ d = .constraint k := by
    intro d
    cases d <;> simp [Definition.constraint?]
  simp only [constraints, List.mem_filterMap, hconstraint]

/-- **The first table that is read** has the name of the statement and the columns of its parts, and
there is no other one exactly if the head stands alone. -/
theorem exists_statementTables : ∃ t others, statementTables s.text file = t :: others ∧
    (others = [] ↔ s.Alone) ∧ t.name = s.head.name.string ∧
    t.columns = Catalog.ofList s.readColumns ∧ t.source = .statement ∧ t.filePath = file := by
  obtain ⟨m, hm, hstop, hname⟩ := s.head.exists_matchHere s.rest
  have hne : s.head.chars ≠ [] := by
    simp [StatementHead.chars, StatementHead.front, s.head.createGap.ne_nil]
  have hfind : statementHead.findAll s.text = m :: statementHead.findScan 0
      (s.head.chars.getLast?.or none) (0 + s.head.chars.length) s.rest :=
    findScan_append_of_matchHere hne hm (hstop.trans (Nat.zero_add _).symm)
  have halone : statementHead.findScan 0 (s.head.chars.getLast?.or none)
      (0 + s.head.chars.length) s.rest = [] ↔ s.Alone := by
    rw [Option.or_none, Nat.zero_add]
    exact findScan_behind_eq_nil_iff
  refine ⟨_, _, by rw [statementTables, hfind, List.map_cons], ?_, hname, ?_, rfl, rfl⟩
  · rw [List.map_eq_nil_iff, halone]
  · dsimp only
    rw [statementColumns, hstop, balancedSlice_body, splitTopLevel_body, List.filterMap_map]
    rfl

/-- No more is read of a statement than it lists, so that nothing that is read is lost. -/
theorem readColumns_eq_written (hnone : ∀ k ∈ s.constraints, columnOf? k.chars = none)
    (hentries : (Catalog.ofList s.readColumns).entries = s.written) :
    s.readColumns = s.written ∧
      ∀ p ∈ s.parts, columnOf? p.chars = p.definition.column?.map ColumnText.pair := by
  have hsilent : ∀ p ∈ s.parts, p.definition.column?.map ColumnText.pair = none →
      columnOf? p.chars = none := by
    intro p hp hwritten
    rw [p.columnOf?_chars]
    cases hdef : p.definition with
    | column c =>
      rw [hdef] at hwritten
      cases hwritten
    | constraint k => exact hnone k (s.mem_constraints_iff.mpr ⟨p, hp, hdef⟩)
  -- A pair that a later one of its name replaces would be missing among the entries.
  have hlength : s.readColumns.length ≤ s.written.length := by
    rw [readColumns, written_eq]
    exact length_filterMap_le hsilent
  rw [← hentries] at hlength
  have hread := (Catalog.entries_ofList_of_length_le hlength).symm.trans hentries
  refine ⟨hread, ?_⟩
  rwa [readColumns, written_eq, filterMap_eq_filterMap_iff hsilent] at hread

/-- **Which statements are read as they are written**: those of which every column can be read and
every constraint is told from a column, and behind whose head no further one stands. -/
theorem readAsWritten_iff : s.ReadAsWritten file ↔
    (∀ c ∈ s.columns, c.Legible) ∧ (∀ k ∈ s.constraints, k.Recognized) ∧ s.Alone := by
  have hcolumn : ∀ {p : BodyPart} {c : ColumnText}, p.definition = .column c →
      (columnOf? p.chars = some c.pair ↔ c.Legible) := by
    intro p c hc
    exact c.columnOf?_eq_iff (p.strip_chars.trans (congrArg Definition.chars hc))
  have hconstraint : ∀ {p : BodyPart} {k : ConstraintText}, p.definition = .constraint k →
      (columnOf? p.chars = none ↔ k.Recognized) := by
    intro p k hk
    exact k.columnOf?_eq_none_iff (p.strip_chars.trans (congrArg Definition.chars hk))
  obtain ⟨t, others, htables, hothers, hname, hcolumns, hsource, hpath⟩ :=
    s.exists_statementTables file
  constructor
  · rintro ⟨⟨t', htables', -, hentries, -, -⟩, hnone⟩
    rw [htables] at htables'
    obtain ⟨rfl, rfl⟩ := List.cons.inj htables'
    rw [hcolumns] at hentries
    obtain ⟨-, hparts⟩ := s.readColumns_eq_written hnone hentries
    refine ⟨fun c hc => ?_, fun k hk => ?_, hothers.mp rfl⟩
    · obtain ⟨p, hp, hdef⟩ := s.mem_columns_iff.mp hc
      have hpart := hparts p hp
      rw [hdef] at hpart
      exact (hcolumn hdef).mp hpart
    · obtain ⟨p, hp, hdef⟩ := s.mem_constraints_iff.mp hk
      have hpart := hparts p hp
      rw [hdef] at hpart
      exact (hconstraint hdef).mp hpart
  · rintro ⟨hlegible, hrecognized, halone⟩
    obtain rfl := hothers.mpr halone
    have hparts : ∀ p ∈ s.parts, columnOf? p.chars = p.definition.column?.map ColumnText.pair := by
      intro p hp
      cases hdef : p.definition with
      | column c =>
        exact (hcolumn hdef).mpr (hlegible c (s.mem_columns_iff.mpr ⟨p, hp, hdef⟩))
      | constraint k =>
        exact (hconstraint hdef).mpr (hrecognized k (s.mem_constraints_iff.mpr ⟨p, hp, hdef⟩))
    have hread : s.readColumns = s.written := by
      rw [readColumns, written_eq]
      exact List.filterMap_congr hparts
    refine ⟨⟨t, htables, hname, ?_, hsource, hpath⟩, fun k hk => ?_⟩
    · rw [hcolumns, hread, entries_ofList_written]
    · obtain ⟨p, hp, hdef⟩ := s.mem_constraints_iff.mp hk
      have hpart := hparts p hp
      rw [p.columnOf?_chars, hdef] at hpart
      exact hpart

end StatementText

/-! ## A column that is lost -/

/-- A column of which nothing more is said. -/
def ColumnText.bare (quoting : Quoting) (name type : Word)
    (h : quoting = .plain → ¬ Reserved name) : ColumnText where
  quoting := quoting
  name := name
  gap := spaces 1
  type := type
  tail := ⟨[], by decide, by decide, by decide, by decide⟩
  gap_ne_nil := fun _ => List.cons_ne_nil _ _
  unreserved := h

/-- A statement with two columns, of which the first has a name that starts a constraint, between
marks. -/
def quotedKeyword : StatementText where
  head :=
    { createWord := "CREATE".toList
      createWord_spells := spells_refl _
      createGap := .space
      tableWord := "TABLE".toList
      tableWord_spells := spells_refl _
      tableGap := .space
      guard := none
      quoting := .plain
      name := .ofString "t" (by decide)
      gap := spaces 1 }
  parts :=
    [⟨spaces 0, .column (.bare .double (.ofString "check" (by decide)) (.ofString "int" (by decide))
      (by decide)), spaces 0⟩,
    ⟨spaces 1, .column (.bare .plain ⟨"id".toList, by decide, by decide⟩
      (.ofString "int" (by decide)) (by decide)), spaces 0⟩]
  distinct := by decide
  after := []

/-- **A column whose name would start a constraint is lost**, although it is between marks. -/
theorem reserved_column_lost :
    quotedKeyword.text = "CREATE TABLE t (\"check\" int, id int)".toList ∧
    quotedKeyword.written = [("check", "int"), ("id", "int")] ∧
    (statementTables quotedKeyword.text "a.sql").map (·.columns.entries) = [[("id", "int")]] ∧
    ¬ quotedKeyword.ReadAsWritten "a.sql" := by
  have htables : (statementTables quotedKeyword.text "a.sql").map (·.columns.entries) =
      [[("id", "int")]] := by decide +kernel
  refine ⟨by decide +kernel, by decide +kernel, htables, ?_⟩
  rintro ⟨⟨t, ht, -, hentries, -, -⟩, -⟩
  have hwritten : quotedKeyword.written = [("check", "int"), ("id", "int")] := by decide +kernel
  rw [ht, List.map_singleton, hentries, hwritten] at htables
  exact absurd htables (by decide)

end PlanAudit.Sql
