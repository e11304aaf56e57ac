import PlanAudit.Proofs.Pattern.Choices
import PlanAudit.Proofs.Plan.Lines
import PlanAudit.Proofs.Text.ObjectKeys
import PlanAudit.Proofs.Text.Parts
import PlanAudit.Supabase.Mentions

/-!
# Selections as they are written

A selection is a tree: columns, each with an alias and a cast if one is wanted, and embedded
relations, each with an alias and a hint if one is wanted and with a selection of its own.  White
space may stand around each of them.  The reader splits a selection into these parts and tells them
apart by the parenthesis that only a relation has.

## Main definitions

* `ColumnText`, `RelationText`: the parts of a selection
* `Selection`: the tree
* `Selection.chars`: its text

## Main results

* `selectMentions_chars`: a selection is read part by part
* `partMentions_column`: what is read of a column
* `partMentions_around`: what is read of an embedded relation
-/

namespace PlanAudit.Supabase

open Text Pattern

/-! ## Trees -/

/-- An alias with the colon behind it. -/
def labelChars : Option Word → List Char
  | none => []
  | some w => w.chars ++ [':']

/-- A column. -/
structure ColumnText where
  /-- Its alias. -/
  label : Option Word
  name : Word
  /-- The type to which it is cast. -/
  cast : Option Word

/-- A cast with the colons in front of it. -/
def castChars : Option Word → List Char
  | none => []
  | some w => ':' :: ':' :: w.chars

def ColumnText.chars (c : ColumnText) : List Char :=
  labelChars c.label ++ (c.name.chars ++ castChars c.cast)

/-- What stands in front of the parenthesis of an embedded relation. -/
structure RelationText where
  /-- Its alias. -/
  label : Option Word
  name : Word
  /-- How it is reached. -/
  hint : Option Word

/-- A hint with the exclamation mark in front of it. -/
def hintChars : Option Word → List Char
  | none => []
  | some w => '!' :: w.chars

def RelationText.chars (r : RelationText) : List Char :=
  labelChars r.label ++ (r.name.chars ++ hintChars r.hint)

/-- A relation with the text of its columns. -/
def RelationText.around (r : RelationText) (columns : List Char) : List Char :=
  r.chars ++ '(' :: (columns ++ [')'])

/-- Columns and embedded relations, each with a part of the selection behind it. -/
inductive Selection where
  /-- Nothing more. -/
  | nil
  /-- A column between white space. -/
  | column (before : Blanks) (c : ColumnText) (after : Blanks) (rest : Selection)
  /-- An embedded relation between white space. -/
  | embed (before : Blanks) (r : RelationText) (columns : Selection) (after : Blanks)
    (rest : Selection)

namespace Selection

/-- The texts of the columns and relations. -/
def items : Selection → List (List Char)
  | nil => []
  | column before c after rest => (before.chars ++ (c.chars ++ after.chars)) :: rest.items
  | embed before r columns after rest =>
    (before.chars ++ (r.around ([','].intercalate columns.items) ++ after.chars)) :: rest.items

/-- The text of a selection. -/
def chars (s : Selection) : List Char := [','].intercalate s.items

end Selection

/-! ## Characters -/

/-- A character of a column, or of a relation in front of its parenthesis. -/
def isSelector (c : Char) : Bool := isWord c || c == ':' || c == '!'

theorem isSelector_of_isWord {c : Char} (h : isWord c = true) : isSelector c = true := by
  simp [isSelector, h]

theorem isBlank_eq_false_of_isSelector {c : Char} (h : isSelector c = true) :
    isBlank c = false := by
  simp only [isSelector, Bool.or_eq_true, beq_iff_eq] at h
  rcases h with (h | rfl) | rfl
  · exact isBlank_eq_false_of_isWord h
  · decide
  · decide

theorem isSelector_labelChars (label : Option Word) :
    ∀ x ∈ labelChars label, isSelector x = true := by
  cases label with
  | none => exact List.forall_mem_nil _
  | some w =>
    exact List.forall_mem_append.mpr
      ⟨fun x hx => isSelector_of_isWord (w.word x hx), by decide⟩

theorem isSelector_castChars (cast : Option Word) : ∀ x ∈ castChars cast, isSelector x = true := by
  cases cast with
  | none => exact List.forall_mem_nil _
  | some w =>
    exact List.forall_mem_cons.mpr ⟨by decide, List.forall_mem_cons.mpr
      ⟨by decide, fun x hx => isSelector_of_isWord (w.word x hx)⟩⟩

theorem isSelector_hintChars (hint : Option Word) : ∀ x ∈ hintChars hint, isSelector x = true := by
  cases hint with
  | none => exact List.forall_mem_nil _
  | some w =>
    exact List.forall_mem_cons.mpr ⟨by decide, fun x hx => isSelector_of_isWord (w.word x hx)⟩

theorem ColumnText.isSelector_chars (c : ColumnText) : ∀ x ∈ c.chars, isSelector x = true :=
  List.forall_mem_append.mpr ⟨isSelector_labelChars c.label, List.forall_mem_append.mpr
    ⟨fun x hx => isSelector_of_isWord (c.name.word x hx), isSelector_castChars c.cast⟩⟩

theorem RelationText.isSelector_chars (r : RelationText) : ∀ x ∈ r.chars, isSelector x = true :=
  List.forall_mem_append.mpr ⟨isSelector_labelChars r.label, List.forall_mem_append.mpr
    ⟨fun x hx => isSelector_of_isWord (r.name.word x hx), isSelector_hintChars r.hint⟩⟩

theorem ColumnText.chars_ne_nil (c : ColumnText) : c.chars ≠ [] := by
  simp [ColumnText.chars, c.name.ne_nil]

theorem RelationText.chars_ne_nil (r : RelationText) : r.chars ≠ [] := by
  simp [RelationText.chars, r.name.ne_nil]

/-! ## Parts -/

section Parts

variable {depth : Int} {w : List Char}

theorem passed_of_class {p : Char → Bool}
    (hp : ['{', '[', '(', '}', ']', ')'].all (!p ·) = true) (hcomma : p ',' = false)
    (hw : ∀ x ∈ w, p x = true) : Passed depth w := by
  refine passed_of_free (fun x hx => not_bracket_of_class hp (hw x hx)) fun _ hmem => ?_
  rw [hw _ hmem] at hcomma
  cases hcomma

theorem passed_of_isSelector (hw : ∀ x ∈ w, isSelector x = true) : Passed depth w :=
  passed_of_class (by decide) (by decide) hw

theorem passed_blanks (b : Blanks) : Passed depth b.chars :=
  passed_of_class (by decide) (by decide) b.blank

/-- **No item is split**, however many brackets are open. -/
theorem Selection.passed_items (s : Selection) (hdepth : 0 ≤ depth) :
    ∀ item ∈ s.items, Passed depth item := by
  induction s generalizing depth with
  | nil => exact List.forall_mem_nil _
  | column before c after rest ih =>
    refine List.forall_mem_cons.mpr ⟨?_, ih hdepth⟩
    exact (passed_blanks before).append
      ((passed_of_isSelector c.isSelector_chars).append (passed_blanks after))
  | embed before r columns after rest ihc ih =>
    refine List.forall_mem_cons.mpr ⟨?_, ih hdepth⟩
    have hcolumns : Passed (depth + 1) ([','].intercalate columns.items) :=
      passed_intercalate (by omega) (ihc (by omega))
    exact (passed_blanks before).append
      (((passed_of_isSelector r.isSelector_chars).append hcolumns.wrap).append
        (passed_blanks after))

theorem Selection.items_ne_nil (s : Selection) : ∀ item ∈ s.items, item ≠ [] := by
  cases s with
  | nil => exact List.forall_mem_nil _
  | column before c after rest =>
    exact List.forall_mem_cons.mpr ⟨by simp [c.chars_ne_nil], rest.items_ne_nil⟩
  | embed before r columns after rest =>
    exact List.forall_mem_cons.mpr ⟨by simp [RelationText.around], rest.items_ne_nil⟩

/-- **A selection is read part by part.** -/
theorem selectMentions_chars (s : Selection) (table : String) :
    selectMentions s.chars table = s.items.flatMap fun item => partMentions table (strip item) := by
  rw [selectMentions, Selection.chars,
    splitTopLevel_intercalate (s.passed_items (Int.le_refl 0)) s.items_ne_nil]

theorem ColumnText.getLast_chars (c : ColumnText) : ∀ x ∈ c.chars.getLast?, isBlank x = false :=
  fun x hx => isBlank_eq_false_of_isSelector (c.isSelector_chars x (List.mem_of_mem_getLast? hx))

/-- White space around a column is stripped. -/
theorem ColumnText.strip_blank (c : ColumnText) {f t : List Char} (hf : ∀ x ∈ f, isBlank x = true)
    (ht : ∀ x ∈ t, isBlank x = true) : strip (f ++ (c.chars ++ t)) = c.chars :=
  strip_between hf ht c.chars_ne_nil
    (fun x hx => isBlank_eq_false_of_isSelector (c.isSelector_chars x (List.mem_of_mem_head? hx)))
    c.getLast_chars

theorem strip_around (before : Blanks) (r : RelationText) (columns : List Char) (after : Blanks) :
    strip (before.chars ++ (r.around columns ++ after.chars)) = r.around columns := by
  refine strip_between before.blank after.blank (by simp [RelationText.around]) ?_ ?_
  · obtain ⟨x, rest, hx⟩ := List.exists_cons_of_ne_nil r.chars_ne_nil
    have hclass := r.isSelector_chars
    rw [hx] at hclass
    rw [RelationText.around, hx]
    exact forall_head?_cons (isBlank_eq_false_of_isSelector (hclass x List.mem_cons_self))
  · have hlast : (r.around columns).getLast? = some ')' := by
      rw [RelationText.around, ← List.cons_append, ← List.append_assoc, List.getLast?_concat]
    rw [hlast]
    rintro x ⟨⟩
    decide

end Parts

/-! ## Columns and relations are told apart -/

/-- An alias that may be left out. -/
theorem exists_label_of_mem_opt {c d : Cursor} (hd : d ∈ (opt (name ++ char ':')).outcomes c) :
    ∃ label, c.rest = labelChars label ++ d.rest := by
  rcases eq_or_mem_of_mem_opt hd with rfl | hmem
  · exact ⟨none, rfl⟩
  · obtain ⟨e, he, hcolon⟩ := mem_outcomes_append.mp hmem
    obtain ⟨w, hw, hne, hword⟩ := exists_reads_of_mem_plus he
    refine ⟨some ⟨w, hne, hword⟩, ?_⟩
    rw [hw.rest_eq, (reads_of_mem_char hcolon).rest_eq, labelChars, List.append_assoc]

/-- A hint that may be left out. -/
theorem exists_hint_of_mem_opt {c d : Cursor} (hd : d ∈ (opt (char '!' ++ name)).outcomes c) :
    ∃ hint, c.rest = hintChars hint ++ d.rest := by
  rcases eq_or_mem_of_mem_opt hd with rfl | hmem
  · exact ⟨none, rfl⟩
  · obtain ⟨e, hmark, he⟩ := mem_outcomes_append.mp hmem
    obtain ⟨w, hw, hne, hword⟩ := exists_reads_of_mem_plus he
    refine ⟨some ⟨w, hne, hword⟩, ?_⟩
    rw [(reads_of_mem_char hmark).rest_eq, hw.rest_eq]
    rfl

/-- A name that is captured. -/
theorem exists_word_of_mem_capture {index : Nat} {c d : Cursor}
    (hd : d ∈ (capture index name).outcomes c) :
    ∃ w : Word, c.rest = w.chars ++ d.rest ∧
      ∃ k : Capture, d.captures = k :: c.captures ∧ k.index = index ∧ k.text = w.chars := by
  obtain ⟨e, he, rfl⟩ := mem_outcomes_capture.mp hd
  obtain ⟨w, hw, hne, hword⟩ := exists_reads_of_mem_plus he
  refine ⟨⟨w, hne, hword⟩, hw.rest_eq, ⟨index, c.offset, e.offset, c.rest⟩, ?_, rfl, hw.take_eq⟩
  exact congrArg _ (captures_of_silent (p := name) trivial he)

/-- **What is read of an embedded relation.** -/
theorem exists_of_mem_embeddedRelation {c d : Cursor} (hd : d ∈ embeddedRelation.outcomes c) :
    ∃ (r : RelationText) (w : List Char), c.rest = r.chars ++ '(' :: (w ++ ')' :: d.rest) ∧
      (w ≠ [] ∧ '\n' ∉ w) ∧ (d.rest = [] ∨ d.rest = ['\n']) ∧
      ∃ k₁ k₂ : Capture, d.captures = k₂ :: k₁ :: c.captures ∧ (k₁.index = 1 ∧ k₂.index = 2) ∧
        k₁.text = r.name.chars ∧ k₂.text = w := by
  obtain ⟨c₆, hd, hend⟩ := mem_outcomes_append.mp hd
  obtain ⟨c₅, hd, hclose⟩ := mem_outcomes_append.mp hd
  obtain ⟨c₄, hd, hcolumns⟩ := mem_outcomes_append.mp hd
  obtain ⟨c₃, hd, hopen⟩ := mem_outcomes_append.mp hd
  obtain ⟨c₂, hd, hhint⟩ := mem_outcomes_append.mp hd
  obtain ⟨c₁, hlabel, hname⟩ := mem_outcomes_append.mp hd
  obtain ⟨hend, rfl⟩ := mem_outcomes_here.mp hend
  obtain ⟨e, hrun, rfl⟩ := mem_outcomes_capture.mp hcolumns
  -- The parts are read from the first to the last.
  obtain ⟨label, hrest₀⟩ := exists_label_of_mem_opt hlabel
  obtain ⟨relation, hrest₁, k₁, hcaptures₁, hindex₁, htext₁⟩ := exists_word_of_mem_capture hname
  obtain ⟨hint, hrest₂⟩ := exists_hint_of_mem_opt hhint
  obtain ⟨w, hw, hne, hfeed⟩ := exists_reads_of_mem_plus hrun
  have hrest₄ : e.rest = ')' :: d.rest := (reads_of_mem_char hclose).rest_eq
  have hend : d.rest = [] ∨ d.rest = ['\n'] := by simpa using hend
  refine ⟨⟨label, relation, hint⟩, w, ?_, ⟨hne, fun hmem => by simpa using hfeed _ hmem⟩, hend,
    k₁, ⟨2, c₄.offset, e.offset, c₄.rest⟩, ?_, ⟨hindex₁, rfl⟩, htext₁, hw.take_eq⟩
  · rw [hrest₀, hrest₁, hrest₂, (reads_of_mem_char hopen).rest_eq, hw.rest_eq, hrest₄]
    simp [RelationText.chars]
  · rw [captures_of_silent (p := char ')') trivial hclose, Cursor.record,
      captures_of_silent (p := plus (one (· != '\n'))) trivial hrun,
      captures_of_silent (p := char '(') trivial hopen,
      captures_of_silent (p := opt (char '!' ++ name)) ⟨trivial, trivial⟩ hhint, hcaptures₁,
      captures_of_silent (p := opt (name ++ char ':')) ⟨trivial, trivial⟩ hlabel]

/-- What is read of a column under an alias. -/
theorem exists_of_mem_aliasedColumn {c d : Cursor} (hd : d ∈ aliasedColumn.outcomes c) :
    ∃ l w : Word, c.rest = l.chars ++ ':' :: (w.chars ++ d.rest) ∧
      (d.rest = [] ∨ d.rest = ['\n']) ∧
      ∃ k : Capture, d.captures = k :: c.captures ∧ k.index = 1 ∧ k.text = w.chars := by
  obtain ⟨c₃, hd, hend⟩ := mem_outcomes_append.mp hd
  obtain ⟨c₂, hd, hname⟩ := mem_outcomes_append.mp hd
  obtain ⟨c₁, hlabel, hcolon⟩ := mem_outcomes_append.mp hd
  obtain ⟨hend, rfl⟩ := mem_outcomes_here.mp hend
  obtain ⟨l, hl, hne, hword⟩ := exists_reads_of_mem_plus hlabel
  obtain ⟨w, hw, k, hcaptures, hindex, htext⟩ := exists_word_of_mem_capture hname
  refine ⟨⟨l, hne, hword⟩, w, ?_, by simpa using hend, k, ?_, hindex, htext⟩
  · rw [hl.rest_eq, (reads_of_mem_char hcolon).rest_eq, hw]
    rfl
  · rw [hcaptures, captures_of_silent (p := char ':') trivial hcolon,
      captures_of_silent (p := name) trivial hlabel]

/-! ## Columns -/

theorem matchStart_embeddedRelation_eq_none {text : List Char} (h : '(' ∉ text) :
    embeddedRelation.matchStart text = none := by
  refine matchStart_eq_none fun d hd => ?_
  obtain ⟨r, w, htext, -⟩ := exists_of_mem_embeddedRelation hd
  have hrest : text = r.chars ++ '(' :: (w ++ ')' :: d.rest) := htext
  exact h (by simp [hrest])

theorem matchStart_aliasedColumn_eq_none {text : List Char} (h : '(' ∈ text) :
    aliasedColumn.matchStart text = none := by
  refine matchStart_eq_none fun d hd => ?_
  obtain ⟨l, w, htext, hend, -⟩ := exists_of_mem_aliasedColumn hd
  have hword : ∀ u : Word, '(' ∉ u.chars := fun u => u.not_mem (by decide)
  have hrest : '(' ∉ d.rest := by rcases hend with hend | hend <;> simp [hend]
  have hsplit : text = l.chars ++ ':' :: (w.chars ++ d.rest) := htext
  rw [hsplit] at h
  simp [hword, hrest] at h

theorem colon_not_mem (w : Word) : ':' ∉ w.chars := w.not_mem (by decide)

/-- A column with a cast has no form that is read. -/
theorem matchStart_aliasedColumn_cast (c : ColumnText) {t : Word} (hcast : c.cast = some t) :
    aliasedColumn.matchStart c.chars = none := by
  refine matchStart_eq_none fun d hd => ?_
  obtain ⟨l, w, htext, hend, -⟩ := exists_of_mem_aliasedColumn hd
  have hfree : ':' ∉ w.chars ++ d.rest := by
    rcases hend with hend | hend <;> simp [hend, (colon_not_mem w)]
  have hsplit : c.chars = l.chars ++ ':' :: (w.chars ++ d.rest) := htext
  -- Behind its first colon the column has another one.
  rw [ColumnText.chars, hcast, castChars] at hsplit
  cases hlabel : c.label with
  | none =>
    rw [hlabel, labelChars, List.nil_append] at hsplit
    obtain ⟨-, hrest⟩ := eq_of_append_cons_eq (colon_not_mem c.name) (colon_not_mem l) hsplit
    exact hfree (hrest ▸ List.mem_cons_self)
  | some label =>
    rw [hlabel, labelChars, List.append_assoc, List.singleton_append] at hsplit
    obtain ⟨-, hrest⟩ := eq_of_append_cons_eq (colon_not_mem label) (colon_not_mem l) hsplit
    exact hfree (hrest ▸ by simp)

theorem matchStart_aliasedColumn_word (w : Word) : aliasedColumn.matchStart w.chars = none := by
  refine matchStart_eq_none fun d hd => ?_
  obtain ⟨l, w', htext, -⟩ := exists_of_mem_aliasedColumn hd
  have hsplit : w.chars = l.chars ++ ':' :: (w'.chars ++ d.rest) := htext
  exact (colon_not_mem w) (by simp [hsplit])

/-- The column under an alias. -/
theorem exists_matchStart_aliasedColumn (l w : Word) :
    ∃ m, aliasedColumn.matchStart (l.chars ++ ':' :: w.chars) = some m ∧ m.group 1 = w.chars := by
  have hrun : ∀ {α : Type} (c : Cursor) (next : Cursor → Option α), aliasedColumn.run c next =
      (name ++ char ':').run c fun d => name.run d fun e => textEnd.run (e.record 1 d) next :=
    fun _ _ => rfl
  have hlabel : (name ++ char ':').Takes (l.chars ++ [':']) (w.chars ++ []) :=
    (takes_word l (forall_head?_cons (by decide))).append (takes_char ':')
  have hname : name.Takes w.chars [] := takes_word_end w
  refine ⟨_, (hrun _ _).trans (hlabel _ _ _ _ (by simp) (hname _ _ _ _ rfl rfl)), ?_⟩
  exact Capture.text_eq

/-- **What is read of a column**: its name, unless it is cast. -/
theorem partMentions_column (table : String) (c : ColumnText) :
    partMentions table c.chars =
      if c.cast.isNone then [columnMention table c.name.string] else [] := by
  have hclass := c.isSelector_chars
  have hplain : ¬ (c.chars = [] ∨ c.chars = ['*']) := by
    rintro (h | h)
    · exact c.chars_ne_nil h
    · rw [h] at hclass
      exact absurd (hclass '*' List.mem_cons_self) (by decide)
  have hparen : '(' ∉ c.chars := fun hmem => absurd (hclass _ hmem) (by decide)
  rw [partMentions, if_neg hplain, matchStart_embeddedRelation_eq_none hparen]
  dsimp only
  cases hcast : c.cast with
  | some t =>
    have hcolon : ':' ∈ c.chars := by simp [ColumnText.chars, hcast, castChars]
    rw [matchStart_aliasedColumn_cast c hcast]
    dsimp only
    rw [matchesStart_soleName_eq_false hcolon (by decide) (by decide)]
    rfl
  | none =>
    have hchars : c.chars = labelChars c.label ++ c.name.chars := by
      rw [ColumnText.chars, hcast, castChars, List.append_nil]
    cases hlabel : c.label with
    | none =>
      rw [hchars, hlabel, labelChars, List.nil_append, matchStart_aliasedColumn_word]
      dsimp only
      rw [matchesStart_soleName]
      rfl
    | some l =>
      obtain ⟨m, hm, hgroup⟩ := exists_matchStart_aliasedColumn l c.name
      rw [hchars, hlabel, labelChars, List.append_assoc, List.singleton_append, hm]
      simp only [hgroup, matchesStart_soleName, if_true]
      rfl

/-! ## Embedded relations -/

/-- What is read in the parentheses of a relation. -/
def columnsIn (text : List Char) : List (List Char) :=
  ((commaParts text).map afterColon).filter soleName.matchesStart

theorem admits_label (label : Option Word) (t : List Char) :
    (opt (name ++ char ':')).Admits (labelChars label) t := by
  cases label with
  | none => exact admits_opt_nil
  | some w =>
    have hname : name.Admits w.chars ([':'] ++ t) :=
      admits_loop_one w.word (List.length_pos_of_ne_nil w.ne_nil)
    exact (hname.append (takes_char ':').admits).opt (by simp)

theorem admits_hint (hint : Option Word) (t : List Char) :
    (opt (char '!' ++ name)).Admits (hintChars hint) t := by
  cases hint with
  | none => exact admits_opt_nil
  | some w =>
    have hname : name.Admits w.chars t :=
      admits_loop_one w.word (List.length_pos_of_ne_nil w.ne_nil)
    exact ((takes_char '!').admits.append hname).opt (by simp)

/-- A relation with columns on one line can be read. -/
theorem exists_mem_embeddedRelation (r : RelationText) {w : List Char} (hne : w ≠ [])
    (hfeed : '\n' ∉ w) : ∃ d, d ∈ embeddedRelation.outcomes ⟨none, 0, r.around w, []⟩ := by
  have hclass : ∀ x ∈ w, (x != '\n') = true := fun x hx => bne_iff_ne.mpr fun h => hfeed (h ▸ hx)
  have hname {t : List Char} : name.Admits r.name.chars t :=
    admits_loop_one r.name.word (List.length_pos_of_ne_nil r.name.ne_nil)
  have hcolumns : (plus (one (· != '\n'))).Admits w ([')'] ++ []) :=
    admits_loop_one hclass (List.length_pos_of_ne_nil hne)
  have hend : textEnd.Reaches [] [] := fun c hrest =>
    ⟨c, mem_outcomes_here.mpr ⟨by simp [hrest], rfl⟩, hrest⟩
  have hall := ((((((admits_label r.label _).reaches.append (hname.reaches.capture 1)).append
    (admits_hint r.hint _).reaches).append (takes_char '(').admits.reaches).append
      (hcolumns.reaches.capture 2)).append (takes_char ')').admits.reaches).append hend
  obtain ⟨d, hd, -⟩ := hall ⟨none, 0, r.around w, []⟩ (by
    simp [RelationText.around, RelationText.chars])
  exact ⟨d, hd⟩

/-- The name of a relation can be told from what stands in front of its parenthesis. -/
theorem RelationText.name_eq (r : RelationText) :
    r.name.chars = (r.chars.rtakeWhile (· != ':')).takeWhile isWord := by
  have hfree : ':' ∉ r.name.chars ++ hintChars r.hint := by
    cases hhint : r.hint <;> simp [hintChars, colon_not_mem]
  have hhead : ∀ c ∈ (hintChars r.hint).head?, isWord c = false := by
    cases r.hint with
    | none => exact nofun
    | some w => exact forall_head?_cons (by decide)
  have hlast : r.chars.rtakeWhile (· != ':') = r.name.chars ++ hintChars r.hint := by
    cases hlabel : r.label with
    | none => rw [chars, hlabel, labelChars, List.nil_append, Plan.rtakeWhile_eq_self hfree]
    | some l =>
      rw [chars, hlabel, labelChars, List.append_assoc, List.singleton_append,
        Plan.rtakeWhile_append_cons, Plan.rtakeWhile_eq_self hfree]
  rw [hlast, takeWhile_append r.name.word hhead]

/-- **What is read of a relation and its columns**, if it is read as such. -/
theorem eq_of_mem_embeddedRelation {r : RelationText} {w : List Char} {d : Cursor}
    (hd : d ∈ embeddedRelation.outcomes ⟨none, 0, r.around w, []⟩) :
    (w ≠ [] ∧ '\n' ∉ w) ∧ ∃ k₁ k₂ : Capture, d.captures = [k₂, k₁] ∧
      (k₁.index = 1 ∧ k₂.index = 2) ∧ k₁.text = r.name.chars ∧ k₂.text = w := by
  obtain ⟨r', w', htext, hw', hend, k₁, k₂, hcaptures, hindex, hk₁, hk₂⟩ :=
    exists_of_mem_embeddedRelation hd
  have hparen : ∀ s : RelationText, '(' ∉ s.chars := fun s hmem =>
    absurd (s.isSelector_chars _ hmem) (by decide)
  obtain ⟨hrelation, hcolumns⟩ := eq_of_append_cons_eq (hparen r) (hparen r') htext
  -- Nothing is left behind the last parenthesis.
  have hrest : d.rest = [] := by
    refine hend.resolve_right fun hfeed => ?_
    have hlast := congrArg List.getLast? hcolumns
    rw [hfeed, List.getLast?_concat, List.append_cons, List.getLast?_concat] at hlast
    exact absurd (Option.some.inj hlast) (by decide)
  rw [hrest] at hcolumns
  obtain rfl : w = w' := List.append_cancel_right hcolumns
  refine ⟨hw', k₁, k₂, hcaptures, hindex, ?_, hk₂⟩
  rw [hk₁, r'.name_eq, r.name_eq, hrelation]

/-- **What is read of an embedded relation**: its name and, if it has any columns and they stand on
one line, these. -/
theorem partMentions_around (table : String) (r : RelationText) (w : List Char) :
    partMentions table (r.around w) =
      if w ≠ [] ∧ '\n' ∉ w then
        embedMention r.name.string none ::
          (columnsIn w).map fun c => embedMention r.name.string (some (String.ofList c))
      else [] := by
  have hparen : '(' ∈ r.around w := by simp [RelationText.around]
  have hplain : ¬ (r.around w = [] ∨ r.around w = ['*']) := by
    rintro (h | h) <;> rw [h] at hparen <;> exact absurd hparen (by decide)
  rw [partMentions, if_neg hplain]
  by_cases hw : w ≠ [] ∧ '\n' ∉ w
  · obtain ⟨d, hd⟩ := exists_mem_embeddedRelation r hw.1 hw.2
    obtain ⟨m, hm⟩ := exists_matchHere_of_mem_outcomes hd
    obtain ⟨d, hd, rfl⟩ := exists_outcome_of_matchHere hm
    obtain ⟨-, k₁, k₂, hcaptures, ⟨hindex₁, hindex₂⟩, htext₁, htext₂⟩ :=
      eq_of_mem_embeddedRelation hd
    have hmatch : embeddedRelation.matchStart (r.around w) = _ := hm
    rw [if_pos hw, hmatch]
    simp [Match.name, Match.group, Match.capture?, hcaptures, hindex₁, hindex₂, htext₁, htext₂,
      columnsIn, Word.string]
  · have hnone : embeddedRelation.matchStart (r.around w) = none :=
      matchStart_eq_none fun d hd => hw (eq_of_mem_embeddedRelation hd).1
    rw [if_neg hw, hnone]
    dsimp only
    rw [matchStart_aliasedColumn_eq_none hparen]
    dsimp only
    rw [matchesStart_soleName_eq_false hparen (by decide) (by decide)]
    rfl

end PlanAudit.Supabase
