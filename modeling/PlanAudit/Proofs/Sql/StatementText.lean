import PlanAudit.Proofs.Pattern.AnyCase
import PlanAudit.Proofs.Sql.Keywords
import PlanAudit.Proofs.Text.Brackets
import PlanAudit.Proofs.Text.Parts
import PlanAudit.Sql.Schema

/-!
# Statements that create a table

A statement is written as a head, which names the table, and a body in parentheses, which lists
columns and constraints with commas between them.  However it is written, its head is found at its
start and its body is the slice behind the head.

## Main definitions

* `Quoting`, `Tail`: the marks around a name and what follows a type or a keyword
* `ColumnText`, `ConstraintText`, `BodyPart`: the parts of a body
* `StatementHead`, `StatementText`: a statement as it is written

## Main results

* `StatementHead.exists_matchHere`: the head is found, with the name of the table
* `StatementText.splitTopLevel_body`: the body is split into its parts
* `StatementText.balancedSlice_body`: the slice behind the head is the body
-/

namespace PlanAudit.Sql

open Text Pattern

/-! ## Parts of a body -/

/-- The word starts a constraint, in whatever case. -/
def Reserved (n : Word) : Prop := lowerCase n.string ∈ constraintKeywords

instance (n : Word) : Decidable (Reserved n) :=
  inferInstanceAs (Decidable (_ ∈ constraintKeywords))

/-- How a name is written. -/
inductive Quoting where
  | plain
  | double
  | grave
  deriving DecidableEq

/-- The mark on either side of the name. -/
def Quoting.mark : Quoting → List Char
  | plain => []
  | double => ['"']
  | grave => ['\x60']

/-- What stands behind the type of a column or the keyword of a constraint.  Its brackets are
closed, the parentheses also among themselves, and no comma stands outside brackets. -/
structure Tail where
  chars : List Char
  /-- The word in front of it ends there. -/
  head : ∀ c ∈ chars.head?, isWord c = false
  /-- White space at the end does not belong to it. -/
  last : ∀ c ∈ chars.getLast?, isBlank c = false
  closed : closesBrackets 0 chars = true
  balanced : depthAfter .round 0 chars = some 0

/-- A column: its name, its type and what else is said of it. -/
structure ColumnText where
  quoting : Quoting
  name : Word
  /-- What stands between the name and the type. -/
  gap : Blanks
  type : Word
  tail : Tail
  /-- Without marks the name needs white space behind it. -/
  gap_ne_nil : quoting = .plain → gap.chars ≠ []
  /-- Without marks the name is not one that starts a constraint. -/
  unreserved : quoting = .plain → ¬ Reserved name

def ColumnText.chars (c : ColumnText) : List Char :=
  c.quoting.mark ++ (c.name.chars ++ (c.quoting.mark ++
    (c.gap.chars ++ (c.type.chars ++ c.tail.chars))))

/-- A constraint of the table: a keyword without marks and the rest. -/
structure ConstraintText where
  keyword : Word
  reserved : Reserved keyword
  rest : Tail

def ConstraintText.chars (k : ConstraintText) : List Char := k.keyword.chars ++ k.rest.chars

/-- What a part of the body says. -/
inductive Definition where
  | column (c : ColumnText)
  | constraint (k : ConstraintText)

def Definition.chars : Definition → List Char
  | column c => c.chars
  | constraint k => k.chars

def Definition.column? : Definition → Option ColumnText
  | column c => some c
  | constraint _ => none

def Definition.constraint? : Definition → Option ConstraintText
  | column _ => none
  | constraint k => some k

/-- A part of the body with the white space around it. -/
structure BodyPart where
  indent : Blanks
  definition : Definition
  space : Blanks

def BodyPart.chars (p : BodyPart) : List Char :=
  p.indent.chars ++ (p.definition.chars ++ p.space.chars)

/-! ## Statements -/

/-- The words by which a table is only created if there is none of its name. -/
structure Guard where
  ifWord : List Char
  ifWord_spells : Spells ifWord "IF".toList
  ifGap : Gap
  notWord : List Char
  notWord_spells : Spells notWord "NOT".toList
  notGap : Gap
  existsWord : List Char
  existsWord_spells : Spells existsWord "EXISTS".toList
  existsGap : Gap

def Guard.chars (g : Guard) : List Char :=
  g.ifWord ++ g.ifGap.chars ++ g.notWord ++ g.notGap.chars ++ g.existsWord ++ g.existsGap.chars

/-- The guard, if there is one. -/
def guardChars : Option Guard → List Char
  | none => []
  | some g => g.chars

/-- What stands in front of the body. -/
structure StatementHead where
  createWord : List Char
  createWord_spells : Spells createWord "CREATE".toList
  createGap : Gap
  tableWord : List Char
  tableWord_spells : Spells tableWord "TABLE".toList
  tableGap : Gap
  guard : Option Guard
  quoting : Quoting
  name : Word
  /-- What stands in front of the parenthesis. -/
  gap : Blanks

namespace StatementHead

/-- What stands in front of the name of the table. -/
def front (h : StatementHead) : List Char :=
  h.createWord ++ h.createGap.chars ++ h.tableWord ++ h.tableGap.chars ++ guardChars h.guard ++
    h.quoting.mark

/-- What stands behind it. -/
def back (h : StatementHead) : List Char := h.quoting.mark ++ h.gap.chars ++ ['(']

def chars (h : StatementHead) : List Char := h.front ++ (h.name.chars ++ h.back)

end StatementHead

/-- A statement that creates a table. -/
structure StatementText where
  head : StatementHead
  parts : List BodyPart
  /-- No two columns share a name. -/
  distinct : ((parts.filterMap fun p => p.definition.column?).map fun c => c.name.string).Nodup
  /-- What follows the closing parenthesis. -/
  after : List Char

namespace StatementText

def columns (s : StatementText) : List ColumnText :=
  s.parts.filterMap fun p => p.definition.column?

def constraints (s : StatementText) : List ConstraintText :=
  s.parts.filterMap fun p => p.definition.constraint?

/-- The parts with commas between them. -/
def body (s : StatementText) : List Char := [','].intercalate (s.parts.map BodyPart.chars)

/-- What stands behind the opening parenthesis. -/
def rest (s : StatementText) : List Char := s.body ++ ')' :: s.after

def text (s : StatementText) : List Char := s.head.chars ++ s.rest

end StatementText

/-! ## Characters with a meaning of their own -/

/-- The brackets, the comma and the quotation marks. -/
def marks : List Char := ['(', ')', '[', ']', '{', '}', ',', '"', '\'', '\x60']

/-- The text has no bracket, no comma and no quotation mark. -/
def Unmarked (w : List Char) : Prop :=
  ∀ c ∈ w, (isOpener c = false ∧ isCloser c = false) ∧ c ≠ ',' ∧ isAnyQuote c = false

section Unmarked

variable {w t : List Char}

theorem unmarked_of_class {p : Char → Bool} (hp : ∀ x ∈ marks, p x = false)
    (hw : ∀ c ∈ w, p c = true) : Unmarked w := by
  intro c hc
  have hne : ∀ x ∈ marks, c ≠ x := by
    rintro x hx rfl
    have hclass := hp c hx
    rw [hw c hc] at hclass
    cases hclass
  simp only [marks, List.forall_mem_cons] at hne
  simp [isOpener, isCloser, isAnyQuote, hne]

theorem unmarked_word (n : Word) : Unmarked n.chars :=
  unmarked_of_class (by decide) n.word

theorem unmarked_blanks (b : Blanks) : Unmarked b.chars := unmarked_of_class (by decide) b.blank

theorem Unmarked.passed (h : Unmarked w) : Passed 0 w :=
  passed_of_free (fun c hc => (h c hc).1) fun _ hmem => (h ',' hmem).2.1 rfl

theorem Unmarked.balanced (h : Unmarked w) : Balanced .round w := by
  refine balanced_of_free fun c hc => ⟨?_, ?_⟩
  · rintro rfl
    exact absurd (h _ hc).1.1 (by decide)
  · rintro rfl
    exact absurd (h _ hc).1.2 (by decide)

theorem Unmarked.dropQuotes (h : Unmarked w) (n : Nat) :
    dropQuotes n (w ++ t) = w ++ Sql.dropQuotes n t := by
  induction w with
  | nil => rfl
  | cons c w ih =>
    obtain ⟨hc, hw⟩ := List.forall_mem_cons.mp h
    cases n with
    | zero => simp [Sql.dropQuotes]
    | succ n =>
      rw [List.cons_append, Sql.dropQuotes, hc.2.2, if_neg Bool.false_ne_true, ih hw]
      rfl

@[simp] theorem dropQuotes_zero (t : List Char) : dropQuotes 0 t = t := by
  cases t <;> rfl

theorem dropQuotes_mark {x : Char} (hx : isAnyQuote x = true) (n : Nat) (t : List Char) :
    dropQuotes (n + 1) (x :: t) = dropQuotes n t := by
  rw [dropQuotes, if_pos hx]

theorem Quoting.passed (q : Quoting) : Passed 0 q.mark :=
  passed_of_free (by cases q <;> decide) fun _ => by cases q <;> decide

theorem Quoting.balanced (q : Quoting) : Balanced .round q.mark :=
  balanced_of_free (by cases q <;> decide)

end Unmarked

/-! ## The body -/

theorem Definition.passed (d : Definition) : Passed 0 d.chars := by
  cases d with
  | column c =>
    exact c.quoting.passed.append ((unmarked_word c.name).passed.append (c.quoting.passed.append
      ((unmarked_blanks c.gap).passed.append ((unmarked_word c.type).passed.append
        (passed_of_closesBrackets c.tail.closed)))))
  | constraint k =>
    exact (unmarked_word k.keyword).passed.append (passed_of_closesBrackets k.rest.closed)

theorem Definition.balanced (d : Definition) : Balanced .round d.chars := by
  cases d with
  | column c =>
    exact c.quoting.balanced.append ((unmarked_word c.name).balanced.append
      (c.quoting.balanced.append ((unmarked_blanks c.gap).balanced.append
        ((unmarked_word c.type).balanced.append (balanced_of_depthAfter c.tail.balanced)))))
  | constraint k =>
    exact (unmarked_word k.keyword).balanced.append (balanced_of_depthAfter k.rest.balanced)

/-- The keyword of a constraint, or the name of a column, is not empty. -/
theorem Definition.chars_ne_nil (d : Definition) : d.chars ≠ [] := by
  cases d with
  | column c => simp [Definition.chars, ColumnText.chars, c.name.ne_nil]
  | constraint k => simp [Definition.chars, ConstraintText.chars, k.keyword.ne_nil]

namespace StatementText

variable (s : StatementText)

/-- **The body is split into its parts.** -/
theorem splitTopLevel_body : splitTopLevel s.body [','] = s.parts.map BodyPart.chars := by
  refine splitTopLevel_intercalate (List.forall_mem_map.mpr fun p _ => ?_)
    (List.forall_mem_map.mpr fun p _ => ?_)
  · exact (unmarked_blanks p.indent).passed.append
      (p.definition.passed.append (unmarked_blanks p.space).passed)
  · simp [BodyPart.chars, p.definition.chars_ne_nil]

/-- **The slice behind the head is the body.** -/
theorem balancedSlice_body :
    (balancedSlice s.text s.head.chars.length .round).body = s.body := by
  have hbody : Balanced .round s.body := by
    refine balanced_intercalate (balanced_of_free (by decide))
      (List.forall_mem_map.mpr fun p _ => ?_)
    exact (unmarked_blanks p.indent).balanced.append
      (p.definition.balanced.append (unmarked_blanks p.space).balanced)
  have hslice := balancedSlice?_of_balanced hbody s.head.chars s.after
  exact congrArg Slice.body (congrArg (Option.getD · _) hslice)

end StatementText

/-! ## The head -/

/-- The words of a head. -/
def headWords : List String := ["CREATE", "TABLE", "IF", "NOT", "EXISTS"]

/-- A letter of one of these words, in either case. -/
def isHeadLetter (x : Char) : Bool :=
  headWords.any fun s => s.toList.any fun c => sameLetter x c

section Head

variable {w t : List Char} {s : String}

theorem isHeadLetter_of_mem (hs : s ∈ headWords) (hw : Spells w s.toList) :
    ∀ x ∈ w, isHeadLetter x = true := by
  intro x hx
  obtain ⟨c, hc, hsame⟩ := hw.exists_sameLetter hx
  exact List.any_eq_true.mpr ⟨s, hs, List.any_eq_true.mpr ⟨c, hc, hsame⟩⟩

theorem isHeadLetter_eq_false_of_isBlank {x : Char} (h : isBlank x = true) :
    isHeadLetter x = false :=
  eq_false_of_isBlank (by decide +kernel) h

/-- In front of a word of the head no white space goes on. -/
theorem head_spelled_append (hs : s ∈ headWords) (hne : s.toList ≠ []) (hw : Spells w s.toList) :
    ∀ x ∈ (w ++ t).head?, isBlank x = false := by
  cases w with
  | nil => exact absurd (List.eq_nil_of_length_eq_zero hw.length_eq.symm) hne
  | cons y w =>
    refine forall_head?_cons ?_
    by_contra hblank
    have hletter := isHeadLetter_eq_false_of_isBlank (by simpa using hblank)
    rw [isHeadLetter_of_mem hs hw y List.mem_cons_self] at hletter
    cases hletter

/-- The optional guard of a head. -/
def guardPattern : Pattern :=
  litAnyCase "IF" ++ blanks1 ++ litAnyCase "NOT" ++ blanks1 ++ litAnyCase "EXISTS" ++ blanks1

theorem takes_guard (g : Guard) (ht : ∀ x ∈ t.head?, isBlank x = false) :
    guardPattern.Takes g.chars t := by
  have hif : blanks1.Takes g.ifGap.chars
      (g.notWord ++ (g.notGap.chars ++ (g.existsWord ++ (g.existsGap.chars ++ t)))) :=
    takes_gap g.ifGap
      (head_spelled_append (by decide) (by decide) g.notWord_spells)
  have hnot : blanks1.Takes g.notGap.chars (g.existsWord ++ (g.existsGap.chars ++ t)) :=
    takes_gap g.notGap
      (head_spelled_append (by decide) (by decide) g.existsWord_spells)
  have hexists : blanks1.Takes g.existsGap.chars t :=
    takes_gap g.existsGap ht
  exact (((((takes_litAnyCase g.ifWord_spells).append hif).append
    (takes_litAnyCase g.notWord_spells)).append hnot).append
      (takes_litAnyCase g.existsWord_spells)).append hexists

/-- The first words that a guard reads. -/
theorem exists_of_mem_guardPattern {c d : Cursor} (hd : d ∈ guardPattern.outcomes c) :
    ∃ v, ∃ gap : Gap, ∃ u r, c.rest = (v ++ gap.chars) ++ (u ++ r) ∧ Spells v "IF".toList ∧
      Spells u "NOT".toList := by
  obtain ⟨d₁, hd, -⟩ := mem_outcomes_append.mp hd
  obtain ⟨d₂, hd, -⟩ := mem_outcomes_append.mp hd
  obtain ⟨d₃, hd, -⟩ := mem_outcomes_append.mp hd
  obtain ⟨d₄, hd, hnot⟩ := mem_outcomes_append.mp hd
  obtain ⟨d₅, hif, hgap⟩ := mem_outcomes_append.mp hd
  obtain ⟨v, hv, hvspells⟩ := exists_reads_of_mem_litAnyCase hif
  obtain ⟨gap, hgap⟩ := exists_gap_of_mem_blanks1 hgap
  obtain ⟨u, hu, huspells⟩ := exists_reads_of_mem_litAnyCase hnot
  exact ⟨v, gap, u, d₃.rest, by rw [(hv.trans hgap).rest_eq, hu.rest_eq], hvspells, huspells⟩

theorem ne_of_isHeadLetter {x y : Char} (hx : isHeadLetter x = true)
    (hy : isHeadLetter y = false) : x ≠ y := by
  rintro rfl
  rw [hx] at hy
  cases hy

/-- **No guard is read** where the name of the table stands. -/
theorem outcomes_guardPattern_eq_nil {c : Cursor} (q : Quoting) (n : Word) (b : Blanks)
    (hrest : c.rest = q.mark ++ (n.chars ++ (q.mark ++ b.chars ++ ['('] ++ t))) :
    guardPattern.outcomes c = [] := by
  rw [List.eq_nil_iff_forall_not_mem]
  intro d hd
  obtain ⟨v, gap, u, r, hread, hv, hu⟩ := exists_of_mem_guardPattern hd
  rw [hrest] at hread
  have hvletter := isHeadLetter_of_mem (by decide) hv
  have huletter := isHeadLetter_of_mem (by decide) hu
  have hvne : v ≠ [] := fun hnil => absurd (hnil ▸ hv.length_eq) (by decide)
  have hune : u ≠ [] := fun hnil => absurd (hnil ▸ hu.length_eq) (by decide)
  obtain ⟨x, v, rfl⟩ := List.exists_cons_of_ne_nil hvne
  have hxletter := hvletter x List.mem_cons_self
  cases q with
  | double => exact ne_of_isHeadLetter hxletter (by decide) (List.cons.inj hread).1.symm
  | grave => exact ne_of_isHeadLetter hxletter (by decide) (List.cons.inj hread).1.symm
  | plain =>
    -- What is read is in front of the parenthesis: a part of the name or of the white space.
    have hfree : '(' ∉ (x :: v ++ gap.chars) ++ u := by
      intro hmem
      rcases List.mem_append.mp hmem with hmem | hmem
      · rcases List.mem_append.mp hmem with hmem | hmem
        · exact absurd (hvletter _ hmem) (by decide)
        · exact absurd (gap.blank _ hmem) (by decide)
      · exact absurd (huletter _ hmem) (by decide)
    have hsplit : ((x :: v ++ gap.chars) ++ u) ++ r = (n.chars ++ b.chars) ++ '(' :: t := by
      simpa [Quoting.mark] using hread.symm
    obtain ⟨z, hz⟩ := exists_eq_append_of_not_mem hfree hsplit
    rw [List.append_assoc] at hz
    rcases List.append_eq_append_iff.mp hz with ⟨k, -, hk⟩ | ⟨k, hk, -⟩
    · -- The second word would be white space.
      obtain ⟨y, u, rfl⟩ := List.exists_cons_of_ne_nil hune
      have hblank := b.blank y (by rw [hk]; simp)
      have hletter := isHeadLetter_eq_false_of_isBlank hblank
      rw [huletter y List.mem_cons_self] at hletter
      cases hletter
    · -- The name would have white space in it.
      exact n.ne_of_gap gap (hk.trans (List.append_assoc _ _ _))

theorem takes_mark (q : Quoting) (ht : ∀ x ∈ t.head?, isAnyQuote x = false) :
    (opt anyQuote).Takes q.mark t := by
  cases q with
  | double => exact (takes_one (by decide)).opt (List.cons_ne_nil _ _)
  | grave => exact (takes_one (by decide)).opt (List.cons_ne_nil _ _)
  | plain =>
    refine takes_opt_nil fun c hrest => List.eq_nil_iff_forall_not_mem.mpr fun d hd => ?_
    obtain ⟨x, xs, hx, hquote, -⟩ := mem_outcomes_one.mp hd
    have hnone := ht x (by rw [← hrest, hx]; rfl)
    have hcases : x = '\'' ∨ x = '"' ∨ x = '\x60' := by simpa using hquote
    rcases hcases with rfl | rfl | rfl <;> exact absurd hnone (by decide)

end Head

namespace StatementHead

variable (h : StatementHead) {t : List Char}

/-- No white space stands in front of the name or its mark. -/
theorem head_mark_append : ∀ x ∈ (h.quoting.mark ++ (h.name.chars ++ t)).head?,
    isBlank x = false := by
  refine forall_head?_append (fun x hx => ?_) (h.name.head_append t)
  revert x
  cases h.quoting <;> decide

theorem head_guard_append : ∀ x ∈ (guardChars h.guard ++
    (h.quoting.mark ++ (h.name.chars ++ t))).head?, isBlank x = false := by
  cases h.guard with
  | none => exact h.head_mark_append
  | some g =>
    simp only [guardChars, Guard.chars, List.append_assoc]
    exact head_spelled_append (by decide) (by decide) g.ifWord_spells

theorem takes_front : (litAnyCase "CREATE" ++ blanks1 ++ litAnyCase "TABLE" ++ blanks1 ++
    opt guardPattern ++ opt anyQuote).Takes h.front (h.name.chars ++ (h.back ++ t)) := by
  have hmark : (opt anyQuote).Takes h.quoting.mark (h.name.chars ++ (h.back ++ t)) := by
    obtain ⟨y, w, hw⟩ := List.exists_cons_of_ne_nil h.name.ne_nil
    have hplain := (unmarked_word h.name y (by rw [hw]; exact List.mem_cons_self)).2.2
    rw [hw]
    exact takes_mark h.quoting (forall_head?_cons hplain)
  have hguard : (opt guardPattern).Takes (guardChars h.guard)
      (h.quoting.mark ++ (h.name.chars ++ (h.back ++ t))) := by
    cases h.guard with
    | none =>
      -- The name itself could start with the letters of a guard, but no second word follows it.
      exact takes_opt_nil fun c hrest =>
        outcomes_guardPattern_eq_nil h.quoting h.name h.gap hrest
    | some g =>
      refine (takes_guard g h.head_mark_append).opt ?_
      simp [Guard.chars, g.ifGap.ne_nil]
  have htable : blanks1.Takes h.tableGap.chars (guardChars h.guard ++
      (h.quoting.mark ++ (h.name.chars ++ (h.back ++ t)))) :=
    takes_gap h.tableGap h.head_guard_append
  have hcreate : blanks1.Takes h.createGap.chars (h.tableWord ++ (h.tableGap.chars ++
      (guardChars h.guard ++ (h.quoting.mark ++ (h.name.chars ++ (h.back ++ t)))))) :=
    takes_gap h.createGap
      (head_spelled_append (by decide) (by decide) h.tableWord_spells)
  exact (((((takes_litAnyCase h.createWord_spells).append hcreate).append
    (takes_litAnyCase h.tableWord_spells)).append htable).append hguard).append hmark

theorem takes_back : (opt anyQuote ++ blanks ++ char '(').Takes h.back t := by
  have hgap : blanks.Takes h.gap.chars (['('] ++ t) :=
    takes_blanks h.gap.blank (forall_head?_cons (by decide))
  have hmark : (opt anyQuote).Takes h.quoting.mark (h.gap.chars ++ (['('] ++ t)) :=
    takes_mark h.quoting (forall_head?_append (fun x hx => (unmarked_blanks h.gap x hx).2.2)
      (forall_head?_cons (by decide)))
  exact (hmark.append hgap).append (takes_char '(')

/-- **The head is found** at the start of a statement, with the name of the table. -/
theorem exists_matchHere (t : List Char) :
    ∃ m, statementHead.matchHere none 0 (h.chars ++ t) = some m ∧ m.stop = h.chars.length ∧
      m.name 1 = h.name.string := by
  generalize htext : h.chars ++ t = text
  let start : Cursor := ⟨none, 0, text, []⟩
  have hrun : statementHead.matchHere none 0 text =
      (litAnyCase "CREATE" ++ blanks1 ++ litAnyCase "TABLE" ++ blanks1 ++ opt guardPattern ++
        opt anyQuote).run start fun e =>
          Pattern.name.run e fun f =>
            (opt anyQuote ++ blanks ++ char '(').run (f.record 1 e) fun c =>
              some ⟨0, c.offset, text, c.captures⟩ := rfl
  have hback : ∀ x ∈ (h.back ++ t).head?, isWord x = false := by
    simp only [back, List.append_assoc]
    refine forall_head?_append (fun x hx => ?_) (h.gap.head_append (forall_head?_cons (by decide)))
    revert x
    cases h.quoting <;> decide
  have hname : Pattern.name.Takes h.name.chars (h.back ++ t) :=
    takes_word h.name hback
  refine ⟨_, hrun.trans (h.takes_front _ _ _ _ ?_ (hname _ _ _ _ rfl
    (h.takes_back _ _ _ _ rfl rfl))), ?_, ?_⟩
  · simp [start, ← htext, chars]
  · simp [chars, Cursor.record, start, Nat.add_assoc]
  · exact congrArg String.ofList Capture.text_eq

end StatementHead

end PlanAudit.Sql
