import Mathlib.Data.List.Chain
import PlanAudit.Proofs.Packages.ImportClauses
import PlanAudit.Proofs.Plan.Block

/-!
# Import statements

A statement is found at the word `import`.  Its clause is read as far as a word `from` with white
space on both sides and a quotation mark behind it: inside of the clause the word may stand as a
name, but no quotation mark follows there.

In the same text assignments of loaded modules are looked for.  A text between quotation marks is
not told apart from code: a source that ends as the call of `require` begins, and the next one,
which closes the call, are read as an assignment, and the statement between them as its source.

## Main definitions

* `ImportText`: a statement as it is written, and `ImportText.bindings`: what it binds
* `OpensLoad`, `ClosesLoad`: sources that end as an assignment begins, or begin as it ends

## Main results

* `exists_matchHere_import`: what is read of a statement
* `finds_nil_load`: no assignment is found
* `bindings_importTexts`: what is read of a block of statements is what they bind
-/

namespace PlanAudit.Packages

open Text Pattern

/-! ## Statements as they are written -/

/-- A quotation mark of a source. -/
def isMark (c : Char) : Bool := "'\"".toList.contains c

/-- An import statement with the white space and the semicolons behind it. -/
structure ImportText where
  clause : Clause
  /-- What stands behind the word `import`. -/
  opening : Gap
  /-- What stands in front of the word `from`. -/
  front : Gap
  /-- What stands behind it. -/
  back : Gap
  /-- The quotation mark on both sides of the source. -/
  mark : Char
  /-- The module that is imported. -/
  source : List Char
  /-- What stands behind the statement. -/
  ending : List Char
  isMark_mark : isMark mark = true
  unquoted : ∀ c ∈ source, isQuotation c = false
  external : isLocalSpecifier (String.ofList source) = false
  ending_plain : ∀ c ∈ ending, isBlank c = true ∨ c = ';'

namespace ImportText

variable (s : ImportText)

/-- The statement up to the first quotation mark. -/
def header : List Char :=
  "import".toList ++ (s.opening.chars ++ (s.clause.chars ++
    (s.front.chars ++ ("from".toList ++ s.back.chars))))

theorem header_eq : s.header = "import".toList ++ (s.opening.chars ++ (s.clause.chars ++
    (s.front.chars ++ ("from".toList ++ s.back.chars)))) := rfl

/-- The statement up to the second quotation mark. -/
def text : List Char := s.header ++ (s.mark :: (s.source ++ [s.mark]))

/-- The statement and what stands behind it. -/
def chars : List Char := s.text ++ s.ending

/-- What the statement binds at run time. -/
def bindings : List Binding :=
  s.clause.bindings (splitSpecifier (String.ofList s.source)).package

end ImportText

/-- A variable to which a loaded module is assigned, up to the module. -/
structure LoadOpening where
  keyword : String
  gap : Gap
  /-- What is assigned to. -/
  pattern : List Char
  /-- The white space on both sides of the equals sign. -/
  atSign : Blanks × Blanks
  /-- The white space on both sides of the parenthesis. -/
  atParenthesis : Blanks × Blanks
  keyword_mem : keyword ∈ ["const", "let", "var"]
  pattern_ne_nil : pattern ≠ []
  pattern_chars : ∀ c ∈ pattern, isPatternChar c = true

/-- The text of the opening. -/
def LoadOpening.chars (o : LoadOpening) : List Char :=
  o.keyword.toList ++ (o.gap.chars ++ (o.pattern ++ (o.atSign.1.chars ++ '=' ::
    (o.atSign.2.chars ++ ("require".toList ++ (o.atParenthesis.1.chars ++ '(' ::
      o.atParenthesis.2.chars))))))

/-- The text ends in the opening of an assignment. -/
def OpensLoad (w : List Char) : Prop :=
  ∃ (u : List Char) (o : LoadOpening), w = u ++ o.chars ∧ ∀ c ∈ u.getLast?, isWord c = false

/-- The text begins with what closes an assignment. -/
def ClosesLoad (w : List Char) : Prop := (stripStart w).head? = some ')'

instance (w : List Char) : Decidable (ClosesLoad w) :=
  inferInstanceAs (Decidable ((stripStart w).head? = some ')'))

/-! ## Quotation marks -/

theorem isMark_of_isPatternChar {c : Char} (h : isPatternChar c = true) : isMark c = false :=
  contains_eq_false (by decide) h

theorem isMark_of_isPhrase {w : List Char} (h : IsPhrase w) : ∀ c ∈ w, isMark c = false :=
  fun c hc => isMark_of_isPatternChar (isPatternChar_of_isPhrase h c hc)

theorem isMark_of_isBlank {w : List Char} (h : ∀ c ∈ w, isBlank c = true) :
    ∀ c ∈ w, isMark c = false :=
  isMark_of_isPhrase fun c hc => Or.inr (h c hc)

/-- A text without quotation marks in front of one is what stands in front of the first. -/
theorem eq_of_append_mark {x y : Char} {u v r s : List Char} (hu : ∀ c ∈ u, isMark c = false)
    (hv : ∀ c ∈ v, isMark c = false) (hx : isMark x = true) (hy : isMark y = true)
    (h : u ++ x :: r = v ++ y :: s) : u = v ∧ r = s := by
  obtain ⟨hfront, -, hrest⟩ := eq_of_append_cons (p := fun c => !isMark c)
    (fun c hc => by rw [hu c hc]; rfl) (fun c hc => by rw [hv c hc]; rfl) (by rw [hx]; rfl)
    (by rw [hy]; rfl) h
  exact ⟨hfront, hrest⟩

namespace ImportText

variable (s : ImportText)

theorem mark_class : isBlank s.mark = false ∧ isWord s.mark = false ∧ s.mark ≠ ')' := by
  have hmarks : ∀ x ∈ "'\"".toList, isBlank x = false ∧ isWord x = false ∧ x ≠ ')' := by decide
  exact hmarks s.mark (List.contains_iff_mem.mp s.isMark_mark)

theorem isMark_source : ∀ c ∈ s.source, isMark c = false := by
  have hmarks : ∀ x ∈ "'\"".toList, (!isQuotation x) = false := by decide
  intro c hc
  exact contains_eq_false hmarks (by rw [s.unquoted c hc, Bool.not_false])

theorem isPatternChar_header : ∀ c ∈ s.header, isPatternChar c = true := by
  simp only [header_eq, List.forall_mem_append]
  exact ⟨by decide, isPatternChar_of_isPhrase (isPhrase_gap s.opening), s.clause.isPatternChar,
    isPatternChar_of_isPhrase (isPhrase_gap s.front), by decide,
    isPatternChar_of_isPhrase (isPhrase_gap s.back)⟩

theorem isMark_header : ∀ c ∈ s.header, isMark c = false :=
  fun c hc => isMark_of_isPatternChar (s.isPatternChar_header c hc)

theorem isMark_ending : ∀ c ∈ s.ending, isMark c = false := by
  intro c hc
  rcases s.ending_plain c hc with hblank | rfl
  · exact isMark_of_isBlank (w := [c]) (by simpa using hblank) c (by simp)
  · decide

theorem isWord_ending : ∀ c ∈ s.ending, isWord c = false := by
  intro c hc
  rcases s.ending_plain c hc with hblank | rfl
  · exact isWord_eq_false_of_isBlank hblank
  · decide

end ImportText

/-! ## Finding the statements -/

/-- The word `from` with the quotation mark behind it. -/
def sourceOpening : Pattern := blanks1 ++ lit "from" ++ blanks1 ++ quote

theorem takes_sourceOpening (front back : Gap) {x : Char} (hx : isMark x = true)
    (hblank : isBlank x = false) (t : List Char) :
    sourceOpening.Takes (front.chars ++ "from".toList ++ back.chars ++ [x]) t :=
  (((takes_gap front (forall_head?_cons (by decide))).append
    (takes_lit "from")).append (takes_gap back
      (forall_head?_cons hblank))).append (takes_one hx)

theorem exists_of_mem_sourceOpening {c d : Cursor} (hd : d ∈ sourceOpening.outcomes c) :
    ∃ (front back : Gap) (x : Char), isMark x = true ∧
      c.rest = (front.chars ++ "from".toList) ++ back.chars ++ x :: d.rest := by
  obtain ⟨c₃, hd, hquote⟩ := mem_outcomes_append.mp hd
  obtain ⟨c₂, hd, hback⟩ := mem_outcomes_append.mp hd
  obtain ⟨c₁, hfront, hfrom⟩ := mem_outcomes_append.mp hd
  obtain ⟨front, hfront⟩ := exists_gap_of_mem_blanks1 hfront
  obtain ⟨back, hback⟩ := exists_gap_of_mem_blanks1 hback
  obtain ⟨x, r, hx, hmark, rfl⟩ := mem_outcomes_one.mp hquote
  refine ⟨front, back, x, hmark, ?_⟩
  have hread := (hfront.trans (reads_of_mem_lit hfrom)).trans hback
  rw [hread.rest_eq, hx]
  rfl

/-- **Inside of a clause no source begins**: in front of the word `from` that a quotation mark
follows stands white space, and a clause does not end in it. -/
theorem not_mem_sourceOpening {v t : List Char} (front back : Gap) {x : Char}
    (hx : isMark x = true) (hne : v ≠ []) (hv : ∀ c ∈ v, isPatternChar c = true)
    (hlast : ∀ c ∈ v.getLast?, isBlank c = false) {c : Cursor}
    (hrest : c.rest = v ++ ((front.chars ++ "from".toList ++ back.chars) ++ x :: t)) (d : Cursor) :
    d ∉ sourceOpening.outcomes c := by
  intro hd
  obtain ⟨front', back', y, hy, hrest'⟩ := exists_of_mem_sourceOpening hd
  have hgap (g : Gap) : ∀ c ∈ g.chars, isMark c = false := isMark_of_isPhrase (isPhrase_gap g)
  have hfree (front back : Gap) : ∀ c ∈ front.chars ++ "from".toList ++ back.chars,
      isMark c = false := by
    simp only [List.forall_mem_append]
    exact ⟨⟨hgap front, by decide⟩, hgap back⟩
  have hword (u : List Char) : ∀ c ∈ (u ++ "from".toList).getLast?, isBlank c = false := by
    rw [List.getLast?_append_of_ne_nil _ (by decide)]
    decide
  -- Both readings end at the first quotation mark, and in front of it at the same word `from`.
  rw [hrest', ← List.append_assoc] at hrest
  obtain ⟨hopening, -⟩ := eq_of_append_mark (hfree front' back') (List.forall_mem_append.mpr
    ⟨fun c hc => isMark_of_isPatternChar (hv c hc), hfree front back⟩) hy hx hrest
  rw [← List.append_assoc, ← List.append_assoc] at hopening
  obtain ⟨hfrom, -⟩ := eq_of_append_eq_append back'.blank back.blank (hword _) (hword _) hopening
  have hblank := List.append_cancel_right hfrom
  -- What is left of the clause would be part of the white space in front of this word.
  have hmem : v.getLast hne ∈ front'.chars := by
    rw [hblank]
    exact List.mem_append_left _ (List.getLast_mem hne)
  have hend := hlast _ (List.getLast_mem_getLast? hne)
  rw [front'.blank _ hmem] at hend
  cases hend

theorem ImportText.takes_source (s : ImportText) (hne : s.source ≠ []) (t : List Char) :
    (plus (noneOf "'\"")).Takes s.source ([s.mark] ++ t) := by
  have hfree : ∀ c ∈ s.source, (!isMark c) = true := fun c hc => by
    rw [s.isMark_source c hc, Bool.not_false]
  have hstop : (!isMark s.mark) = false := by rw [s.isMark_mark, Bool.not_true]
  exact takes_loop_one hfree (List.length_pos_of_ne_nil hne) (forall_head?_cons hstop)

/-- **What is read of a statement**: the clause and the source. -/
theorem exists_matchHere_import (s : ImportText) (hne : s.source ≠ []) {before : Option Char}
    (hbefore : ∀ c ∈ before, isWord c = false) (offset : Nat) (t : List Char) :
    ∃ m, importStatement.matchHere before offset (s.text ++ t) = some m ∧
      m.stop = offset + s.text.length ∧ m.group 1 = s.clause.chars ∧ m.group 2 = s.source := by
  let start : Cursor := ⟨before, offset, s.text ++ t, []⟩
  have hrun : importStatement.matchHere before offset start.rest =
      wordEdge.run start fun c => (lit "import" ++ blanks1).run c fun d =>
        (starLazy (noneOf "'\";")).run d fun e => sourceOpening.run (e.record 1 d) fun f =>
          (plus (noneOf "'\"")).run f fun g => quote.run (g.record 2 f) fun h =>
            some ⟨offset, h.offset, start.rest, h.captures⟩ := rfl
  have hrest : start.rest = ("import".toList ++ s.opening.chars) ++ (s.clause.chars ++
      ((s.front.chars ++ "from".toList ++ s.back.chars ++ [s.mark]) ++
        (s.source ++ ([s.mark] ++ t)))) := by
    simp [start, ImportText.text, ImportText.header_eq]
  have hstart : ∃ x ∈ start.rest.head?, isWord x = true := ⟨'i', by rw [hrest]; rfl, by decide⟩
  have hopen : (lit "import" ++ blanks1).Takes ("import".toList ++ s.opening.chars)
      (s.clause.chars ++ ((s.front.chars ++ "from".toList ++ s.back.chars ++ [s.mark]) ++
        (s.source ++ ([s.mark] ++ t)))) := by
    refine (takes_lit "import").append (takes_gap s.opening ?_)
    rw [List.head?_append_of_ne_nil _ s.clause.ends.1]
    exact s.clause.ends.2.1
  have hfree : ∀ c ∈ s.clause.chars, (!"'\";".toList.contains c) = true := fun c hc => by
    rw [contains_eq_false (by decide) (s.clause.isPatternChar c hc), Bool.not_false]
  -- Piece by piece each pattern takes what it is meant for; only the clause could end too early.
  refine ⟨_, hrun.trans ((run_wordEdge hbefore hstart).trans (hopen _ _ _ _ hrest
    (run_starLazy_one hfree rfl (fun u v hsplit hv => run_eq_none fun d hd => ?_)
      (takes_sourceOpening s.front s.back s.isMark_mark s.mark_class.1 _ _ _ _ _ rfl
        (s.takes_source hne t _ _ _ _ rfl (takes_one s.isMark_mark _ _ _ _ rfl rfl)))))), ?_,
    Capture.text_eq, Capture.text_eq⟩
  · have hlast : v.getLast? = s.clause.chars.getLast? := by
      rw [hsplit, List.getLast?_append_of_ne_nil _ hv]
    have hchars : ∀ c ∈ v, isPatternChar c = true := fun c hc =>
      s.clause.isPatternChar c (by rw [hsplit]; exact List.mem_append_right u hc)
    refine absurd hd (not_mem_sourceOpening s.front s.back s.isMark_mark hv hchars
      (hlast ▸ s.clause.ends.2.2) (t := s.source ++ ([s.mark] ++ t)) ?_ d)
    simp [Cursor.record]
  · simp [start, Cursor.record, ImportText.text, ImportText.header_eq]
    omega

/-! ## Finding no assignment -/

theorem LoadOpening.isPatternChar_name (o : LoadOpening) :
    ∀ c ∈ o.keyword.toList ++ (o.gap.chars ++ o.pattern), isPatternChar c = true := by
  have hkeywords : ∀ k ∈ ["const", "let", "var"], ∀ c ∈ k.toList, isPatternChar c = true := by
    decide
  simp only [List.forall_mem_append]
  exact ⟨hkeywords _ o.keyword_mem, isPatternChar_of_isPhrase (isPhrase_gap o.gap), o.pattern_chars⟩

theorem LoadOpening.isMark_chars (o : LoadOpening) : ∀ c ∈ o.chars, isMark c = false := by
  have hname := o.isPatternChar_name
  simp only [List.forall_mem_append] at hname
  simp only [chars, List.forall_mem_append, List.forall_mem_cons]
  exact ⟨fun c hc => isMark_of_isPatternChar (hname.1 c hc),
    fun c hc => isMark_of_isPatternChar (hname.2.1 c hc),
    fun c hc => isMark_of_isPatternChar (hname.2.2 c hc), isMark_of_isBlank o.atSign.1.blank,
    by decide, isMark_of_isBlank o.atSign.2.blank, by decide,
    isMark_of_isBlank o.atParenthesis.1.blank, by decide, isMark_of_isBlank o.atParenthesis.2.blank⟩

theorem LoadOpening.exists_cons (o : LoadOpening) :
    ∃ x t, o.chars = x :: t ∧ isWord x = true := by
  have hkeywords : ∀ k ∈ ["const", "let", "var"], k.toList.head?.any isWord = true := by decide
  obtain ⟨x, hx, hword⟩ := (Option.any_eq_true _ _).mp (hkeywords _ o.keyword_mem)
  obtain ⟨t, ht⟩ := List.head?_eq_some_iff.mp hx
  exact ⟨x, _, by rw [chars, ht, List.cons_append], hword⟩

/-- An assignment up to the quotation mark in front of the source. -/
def requireOpening : Pattern :=
  wordEdge ++ oneOfTexts ["const", "let", "var"] ++ blanks1 ++
    capture 1 (plusLazy (one isPatternChar)) ++ blanks ++ char '=' ++ blanks ++ lit "require" ++
    blanks ++ char '(' ++ blanks

theorem exists_of_mem_requireOpening {c d : Cursor} (hd : d ∈ requireOpening.outcomes c) :
    ∃ o : LoadOpening, c.rest = o.chars ++ d.rest ∧ ∀ z ∈ c.before, isWord z = false := by
  -- The pieces of the pattern are split off from the last to the first.
  obtain ⟨c₁₀, hd, hgap₄⟩ := mem_outcomes_append.mp hd
  obtain ⟨c₉, hd, hparenthesis⟩ := mem_outcomes_append.mp hd
  obtain ⟨c₈, hd, hgap₃⟩ := mem_outcomes_append.mp hd
  obtain ⟨c₇, hd, hrequire⟩ := mem_outcomes_append.mp hd
  obtain ⟨c₆, hd, hgap₂⟩ := mem_outcomes_append.mp hd
  obtain ⟨c₅, hd, hsign⟩ := mem_outcomes_append.mp hd
  obtain ⟨c₄, hd, hgap₁⟩ := mem_outcomes_append.mp hd
  obtain ⟨c₃, hd, hcapture⟩ := mem_outcomes_append.mp hd
  obtain ⟨c₂, hd, hgap⟩ := mem_outcomes_append.mp hd
  obtain ⟨c₁, hedge, hkeyword⟩ := mem_outcomes_append.mp hd
  obtain ⟨hatEdge, rfl⟩ := mem_outcomes_here.mp hedge
  obtain ⟨e, hpattern, rfl⟩ := mem_outcomes_capture.mp hcapture
  obtain ⟨k, hk, hkread⟩ := exists_reads_of_mem_oneOfTexts hkeyword
  obtain ⟨g, hg⟩ := exists_gap_of_mem_blanks1 hgap
  obtain ⟨p, hp, hpne, hpchars⟩ := exists_reads_of_mem_loop hpattern
  obtain ⟨b₁, hb₁, hblank₁⟩ := exists_reads_of_mem_blanks hgap₁
  obtain ⟨b₂, hb₂, hblank₂⟩ := exists_reads_of_mem_blanks hgap₂
  obtain ⟨b₃, hb₃, hblank₃⟩ := exists_reads_of_mem_blanks hgap₃
  obtain ⟨b₄, hb₄, hblank₄⟩ := exists_reads_of_mem_blanks hgap₄
  let o : LoadOpening := ⟨k, g, p, ⟨⟨b₁, hblank₁⟩, ⟨b₂, hblank₂⟩⟩,
    ⟨⟨b₃, hblank₃⟩, ⟨b₄, hblank₄⟩⟩, hk, hpne, hpchars⟩
  have hread := (((((((hkread.trans hg).trans hp.record).trans hb₁).trans
    (reads_of_mem_char hsign)).trans hb₂).trans (reads_of_mem_lit hrequire)).trans hb₃).trans
      ((reads_of_mem_char hparenthesis).trans hb₄)
  have hrest : c₁.rest = o.chars ++ d.rest := by
    rw [hread.rest_eq]
    simp [o, LoadOpening.chars]
  refine ⟨o, hrest, fun z hz => ?_⟩
  -- A name starts behind the edge, and none ends in front of it.
  obtain ⟨n, t, hn, hword⟩ := o.exists_cons
  rw [hrest, hn, show c₁.before = some z from hz] at hatEdge
  simpa [hword] using hatEdge

/-- **What is read of an assignment**: its opening, the source and the closing parenthesis. -/
theorem exists_of_mem_requireStatement {c d : Cursor} (hd : d ∈ requireStatement.outcomes c) :
    ∃ (o : LoadOpening) (x y : Char) (source : List Char) (b : Blanks),
      c.rest = o.chars ++ x :: (source ++ y :: (b.chars ++ ')' :: d.rest)) ∧
        isMark x = true ∧ isMark y = true ∧ (∀ z ∈ source, isMark z = false) ∧
          ∀ z ∈ c.before, isWord z = false := by
  obtain ⟨c₃, hd, hclose⟩ := mem_outcomes_append.mp hd
  obtain ⟨c₂, hd, hgap⟩ := mem_outcomes_append.mp hd
  obtain ⟨c₁, hopening, hquoted⟩ := mem_outcomes_append.mp hd
  obtain ⟨e₁, hquoted, hsecond⟩ := mem_outcomes_append.mp hquoted
  obtain ⟨e₂, hfirst, hcapture⟩ := mem_outcomes_append.mp hquoted
  obtain ⟨f, hsource, rfl⟩ := mem_outcomes_capture.mp hcapture
  obtain ⟨o, ho, hbefore⟩ := exists_of_mem_requireOpening hopening
  obtain ⟨x, r, hx, hxmark, rfl⟩ := mem_outcomes_one.mp hfirst
  obtain ⟨w, hw, -, hfree⟩ := exists_reads_of_mem_plus hsource
  obtain ⟨y, r', hy, hymark, rfl⟩ := mem_outcomes_one.mp hsecond
  obtain ⟨b, hb, hblank⟩ := exists_reads_of_mem_blanks hgap
  have hr : r = w ++ y :: r' := hw.rest_eq.trans (congrArg (w ++ ·) hy)
  have hr' : r' = b ++ ')' :: d.rest :=
    (hb.trans (reads_of_mem_char hclose)).rest_eq.trans (List.append_assoc _ _ _)
  refine ⟨o, x, y, w, ⟨b, hblank⟩, ?_, hxmark, hymark, fun z hz => ?_, hbefore⟩
  · rw [ho, hx, hr, hr']
  · exact Bool.not_eq_true' _ ▸ hfree z hz

theorem startsWith_requireStatement : StartsWith isWord requireStatement := by
  intro c d hd
  obtain ⟨o, x, y, w, b, hrest, -⟩ := exists_of_mem_requireStatement hd
  obtain ⟨n, t, hn, hword⟩ := o.exists_cons
  exact ⟨n, _, by rw [hrest, hn, List.cons_append], hword⟩

section Loads

variable {stmts : List ImportText} {t : List Char}

/-- In front of a source stands no equals sign. -/
theorem ImportText.quiet_header (s : ImportText) (before : Option Char) :
    requireStatement.Quiet before s.header (s.mark :: t) := by
  refine quiet_of_forall fun u v hsplit _ c d _ hrest hd => ?_
  obtain ⟨o, x, y, w, b, hread, hx, -⟩ := exists_of_mem_requireStatement hd
  -- The opening would reach up to the quotation mark in front of the source.
  have hmem : ∀ z ∈ v, z ∈ s.header := fun z hz => by
    rw [hsplit]
    exact List.mem_append_right u hz
  obtain ⟨rfl, -⟩ := eq_of_append_mark (fun z hz => s.isMark_header z (hmem z hz)) o.isMark_chars
    s.isMark_mark hx (hrest.symm.trans hread)
  have hsign := s.isPatternChar_header '=' (hmem '=' (by simp [LoadOpening.chars]))
  exact absurd hsign (by decide)

/-- **An assignment in a source** is opened at the end of it and closed in the next one. -/
theorem ImportText.quiet_source (s : ImportText) (before : Option Char)
    (h : OpensLoad s.source → ∀ (y : Char) (w r : List Char) (b : Blanks), isMark y = true →
      (∀ z ∈ w, isMark z = false) → t ≠ w ++ y :: (b.chars ++ ')' :: r)) :
    requireStatement.Quiet before (s.mark :: s.source) (s.mark :: t) := by
  refine quiet_of_forall fun u v hsplit hv c d hbefore hrest hd => ?_
  obtain ⟨o, x, y, w, b, hread, hx, hy, hw, hedge⟩ := exists_of_mem_requireStatement hd
  cases u with
  | nil =>
    -- No assignment starts with a quotation mark.
    refine startsWith_requireStatement.notMem_outcomes (t := s.source ++ s.mark :: t) ?_
      s.mark_class.2.1 hd
    rw [hrest, ← show s.mark :: s.source = v from hsplit, List.cons_append]
  | cons first u =>
    obtain ⟨rfl, hsource⟩ := List.cons.inj hsplit
    have hfree : ∀ z ∈ v, isMark z = false := fun z hz => s.isMark_source z (by
      rw [hsource]
      exact List.mem_append_right u hz)
    obtain ⟨rfl, htail⟩ := eq_of_append_mark hfree o.isMark_chars s.isMark_mark hx
      (hrest.symm.trans hread)
    refine h ⟨u, o, hsource, fun z hz => hedge z ?_⟩ y w _ b hy hw htail
    rw [hbefore, List.getLast?_cons, show u.getLast? = some z from hz]
    rfl

/-- **What closes an assignment** behind a source begins the source of the next statement. -/
theorem closesLoad_of_eq (s : ImportText) {y : Char} {w r : List Char} {b : Blanks}
    (hy : isMark y = true) (hw : ∀ z ∈ w, isMark z = false)
    (h : s.ending ++ (stmts.flatMap ImportText.chars ++ ['\n']) = w ++ y :: (b.chars ++ ')' :: r)) :
    ∃ s' ∈ stmts.head?, ClosesLoad s'.source := by
  cases stmts with
  | nil =>
    have hmem : y ∈ s.ending ++ ['\n'] := by
      rw [show s.ending ++ ['\n'] = w ++ y :: (b.chars ++ ')' :: r) from h]
      simp
    have hfree : ∀ z ∈ s.ending ++ ['\n'], isMark z = false :=
      List.forall_mem_append.mpr ⟨s.isMark_ending, by decide⟩
    rw [hfree y hmem] at hy
    cases hy
  | cons s' stmts =>
    refine ⟨s', rfl, ?_⟩
    -- Up to the first quotation mark stands the statement that is read as a source.
    have hsplit : (s.ending ++ s'.header) ++ s'.mark :: (s'.source ++ s'.mark ::
        (s'.ending ++ (stmts.flatMap ImportText.chars ++ ['\n']))) =
          w ++ y :: (b.chars ++ ')' :: r) := by
      simpa [ImportText.chars, ImportText.text] using h
    obtain ⟨-, hrest⟩ := eq_of_append_mark
      (List.forall_mem_append.mpr ⟨s.isMark_ending, s'.isMark_header⟩) hw s'.isMark_mark hy hsplit
    have hbehind := congrArg (List.dropWhile isBlank) hrest
    rw [dropWhile_append b.blank (forall_head?_cons (by decide)), List.dropWhile_append] at hbehind
    split at hbehind
    · -- The source is not closed by the quotation mark behind it.
      rw [List.dropWhile_cons_of_neg (by simp [s'.mark_class.1])] at hbehind
      exact absurd (List.cons.inj hbehind).1 s'.mark_class.2.2
    · rename_i hne
      obtain ⟨z, v, hz⟩ := List.exists_cons_of_ne_nil (mt List.isEmpty_iff.mpr hne)
      rw [hz] at hbehind
      rw [ClosesLoad, stripStart, hz, (List.cons.inj hbehind).1]
      rfl

/-- **No assignment is found** among statements, unless one is opened and closed in their
sources. -/
theorem finds_nil_load {α : Type} {read : Match → α}
    (h : stmts.IsChain fun s s' => ¬ (OpensLoad s.source ∧ ClosesLoad s'.source)) :
    requireStatement.Finds read (stmts.flatMap ImportText.chars ++ ['\n']) [] := by
  induction stmts with
  | nil => exact startsWith_requireStatement.finds_nil (by decide)
  | cons s stmts ih =>
    obtain ⟨hnext, hstmts⟩ := List.isChain_cons.mp h
    have htext : (s :: stmts).flatMap ImportText.chars ++ ['\n'] =
        (s.header ++ ((s.mark :: s.source) ++ (s.mark :: s.ending))) ++
          (stmts.flatMap ImportText.chars ++ ['\n']) := by
      simp [ImportText.chars, ImportText.text]
    rw [htext]
    refine (ih hstmts).quiet fun before => quiet_append.mpr ⟨s.quiet_header before, ?_⟩
    refine quiet_append.mpr ⟨s.quiet_source _ fun hopen y w r b hy hw heq => ?_, ?_⟩
    · obtain ⟨s', hs', hclose⟩ := closesLoad_of_eq s hy hw heq
      exact hnext s' hs' ⟨hopen, hclose⟩
    · exact startsWith_requireStatement.quiet
        (List.forall_mem_cons.mpr ⟨s.mark_class.2.1, s.isWord_ending⟩)

end Loads

/-! ## What is read of a block -/

section Reading

variable {stmts : List ImportText}

theorem startsWith_importStatement : StartsWith isWord importStatement :=
  ((((((startsWith_here_append _ (startsWith_lit rfl (by decide))).append _).append _).append
    _).append _).append _).append _

/-- **Every statement is found**, one behind the other. -/
theorem map_findScan_import (hne : ∀ s ∈ stmts, s.source ≠ []) {before : Option Char}
    (hbefore : ∀ c ∈ before, isWord c = false) (offset : Nat) :
    (importStatement.findScan 0 before offset (stmts.flatMap ImportText.chars ++ ['\n'])).map
      (fun m => (m.group 1, m.group 2)) = stmts.map fun s => (s.clause.chars, s.source) := by
  -- Induction on the statements: each is found at the position where the search goes on, because
  -- what stands in front of it is no part of a name.
  induction stmts generalizing before offset with
  | nil => exact startsWith_importStatement.finds_nil (by decide) before offset
  | cons s stmts ih =>
    obtain ⟨hs, hstmts⟩ := List.forall_mem_cons.mp hne
    obtain ⟨m, hm, hstop, hclause, hsource⟩ := exists_matchHere_import s hs hbefore offset
      (s.ending ++ (stmts.flatMap ImportText.chars ++ ['\n']))
    have htext : (s :: stmts).flatMap ImportText.chars ++ ['\n'] =
        s.text ++ (s.ending ++ (stmts.flatMap ImportText.chars ++ ['\n'])) := by
      simp [ImportText.chars]
    have hlast : s.text.getLast? = some s.mark := by
      rw [ImportText.text, ← List.cons_append, ← List.append_assoc, List.getLast?_concat]
    have hbehind : ∀ c ∈ s.ending.getLast?.or (s.text.getLast?.or before), isWord c = false := by
      intro c hc
      rw [hlast, Option.some_or] at hc
      cases hend : s.ending.getLast? with
      | none =>
        rw [hend, Option.none_or] at hc
        exact Option.some.inj hc ▸ s.mark_class.2.1
      | some x =>
        rw [hend, Option.some_or] at hc
        exact s.isWord_ending c (List.mem_of_getLast? (hend.trans hc))
    rw [htext, findScan_append_of_matchHere (by simp [ImportText.text]) hm hstop, List.map_cons,
      findScan_append_of_quiet (startsWith_importStatement.quiet s.isWord_ending),
      ih hstmts hbehind, hclause, hsource]
    rfl

/-- What is read of the statements is what they bind. -/
theorem statementBindings_import (hne : ∀ s ∈ stmts, s.source ≠ []) :
    statementBindings importStatement clauseBindings (stmts.flatMap ImportText.chars ++ ['\n']) =
      stmts.flatMap ImportText.bindings := by
  have hread : (importStatement.findAll (stmts.flatMap ImportText.chars ++ ['\n'])).map
      (fun m => (m.group 1, m.group 2)) = stmts.map fun s => (s.clause.chars, s.source) :=
    map_findScan_import hne (by exact nofun) 0
  let read (g : List Char × List Char) : List Binding :=
    if isLocalSpecifier (String.ofList g.2) then []
    else clauseBindings (splitSpecifier (String.ofList g.2)).package (strip g.1)
  have hstatement (s : ImportText) : read (s.clause.chars, s.source) = s.bindings := by
    obtain ⟨hclause, hhead, hlast⟩ := s.clause.ends
    have hstrip : strip s.clause.chars = s.clause.chars := by
      simpa using strip_between (v := []) (t := []) nofun nofun hclause hhead hlast
    change (if isLocalSpecifier (String.ofList s.source) then [] else _) = _
    rw [s.external, hstrip, clauseBindings_chars]
    rfl
  calc statementBindings importStatement clauseBindings (stmts.flatMap ImportText.chars ++ ['\n'])
      = ((importStatement.findAll (stmts.flatMap ImportText.chars ++ ['\n'])).map
          (fun m => (m.group 1, m.group 2))).flatMap read := by rw [List.flatMap_map]; rfl
    _ = stmts.flatMap fun s => read (s.clause.chars, s.source) := by rw [hread, List.flatMap_map]
    _ = stmts.flatMap ImportText.bindings := by simp only [hstatement]

theorem not_mem_importTexts : '\x60' ∉ stmts.flatMap ImportText.chars := by
  intro h
  obtain ⟨s, -, h⟩ := List.mem_flatMap.mp h
  rcases List.mem_append.mp h with h | h
  · rcases List.mem_append.mp h with h | h
    · exact absurd (s.isPatternChar_header _ h) (by decide)
    · have hmark : s.mark ≠ '\x60' := fun h => absurd s.isMark_mark (by rw [h]; decide)
      have hsource : '\x60' ∉ s.source := fun h => absurd (s.unquoted _ h) (by decide)
      simp [hsource, hmark.symm] at h
  · exact (s.ending_plain _ h).elim (fun h => absurd h (by decide)) fun h => absurd h (by decide)

/-- **What is read of a block of statements is what they bind**, each name once. -/
theorem bindings_importTexts (b : Plan.Block) (hne : ∀ s ∈ stmts, s.source ≠ [])
    (hload : stmts.IsChain fun s s' => ¬ (OpensLoad s.source ∧ ClosesLoad s'.source)) :
    bindings (b.plan (stmts.flatMap ImportText.chars)) =
      firstPerKey Binding.key (stmts.flatMap ImportText.bindings) := by
  have hloads : requireStatement.findAll (stmts.flatMap ImportText.chars ++ ['\n']) = [] := by
    have hnone :
        (requireStatement.findAll (stmts.flatMap ImportText.chars ++ ['\n'])).map id = [] :=
      finds_nil_load hload none 0
    rwa [List.map_id] at hnone
  rw [bindings, b.joinedBlocks_plan not_mem_importTexts]
  simp only [statementBindings_import hne]
  rw [statementBindings, hloads, List.flatMap_nil, List.append_nil]

end Reading

/-! ## Blocks of two statements -/

/-- A block with a line in front of it and a line behind it. -/
def exampleBlock : Plan.Block :=
  ⟨"Imports:\n".toList, "tsx".toList, "\nNothing else.\n".toList, by decide, by decide, by decide⟩

/-- A statement with single spaces on a line of its own. -/
def ImportText.line (clause : Clause) (source : String)
    (unquoted : ∀ c ∈ source.toList, isQuotation c = false)
    (external : isLocalSpecifier (String.ofList source.toList) = false) : ImportText where
  clause := clause
  opening := .space
  front := .space
  back := .space
  mark := '\''
  source := source.toList
  ending := ";\n".toList
  isMark_mark := by decide
  unquoted := unquoted
  external := external
  ending_plain := by decide

/-- A default export with a list of names, and all exports under the name `from`. -/
def mixedImports : List ImportText :=
  let memo : Alias := ⟨.space, .space, .ofString "memo" (by decide)⟩
  let items : NameList :=
    ⟨[(.none, .typeOnly .space (.ofString "FC" (by decide)) none, .none),
      (.none, .renamed (.ofString "useMemo" (by decide)) memo (by decide), .none)], none⟩
  [.line (.both (.ofString "React" (by decide)) (.none, .none) (.listed items)) "react"
      (by decide) (by decide +kernel),
    .line (.group (.all ⟨.space, .space, .ofString "from" (by decide)⟩)) "@scope/tools/file"
      (by decide) (by decide +kernel)]

theorem bindings_mixedImports :
    mixedImports.flatMap ImportText.chars =
        ("import React,\x7btype FC,useMemo as memo\x7d from 'react';\n" ++
          "import * as from from '@scope/tools/file';\n").toList ∧
      (∀ s ∈ mixedImports, s.source ≠ []) ∧
      mixedImports.IsChain (fun s s' => ¬ (OpensLoad s.source ∧ ClosesLoad s'.source)) ∧
      bindings (exampleBlock.plan (mixedImports.flatMap ImportText.chars)) =
        [⟨"React", "react", .default, none⟩, ⟨"memo", "react", .named, some "useMemo"⟩,
          ⟨"from", "@scope/tools", .namespace, none⟩] := by
  have hne : ∀ s ∈ mixedImports, s.source ≠ [] := by decide
  have hload : mixedImports.IsChain
      fun s s' => ¬ (OpensLoad s.source ∧ ClosesLoad s'.source) :=
    List.isChain_cons_cons.mpr ⟨fun h => absurd h.2 (by decide), List.isChain_singleton _⟩
  exact ⟨by decide +kernel, hne, hload,
    (bindings_importTexts exampleBlock hne hload).trans (by decide +kernel)⟩

/-- Two statements the sources of which read as an assignment. -/
def loadInSources : List ImportText :=
  [.line (.one ⟨"first".toList, by decide, by decide⟩) "const x = require(" (by decide)
      (by decide +kernel),
    .line (.one ⟨"second".toList, by decide, by decide⟩) ")y" (by decide) (by decide +kernel)]

/-- A statement with no source. -/
def emptySource : List ImportText :=
  [.line (.one ⟨"first".toList, by decide, by decide⟩) "" (by decide) (by decide +kernel)]

/-- **Sources are taken for code**: a third name is bound that no statement binds.  Of a statement
with no source nothing is read. -/
theorem source_taken_for_code :
    loadInSources.flatMap ImportText.chars = ("import first from 'const x = require(';\n" ++
        "import second from ')y';\n").toList ∧
      bindings (exampleBlock.plan (loadInSources.flatMap ImportText.chars)) =
        firstPerKey Binding.key (loadInSources.flatMap ImportText.bindings) ++
          [⟨"x", ";\nimport second from ", .default, none⟩] ∧
      bindings (exampleBlock.plan (emptySource.flatMap ImportText.chars)) = [] ∧
      firstPerKey Binding.key (emptySource.flatMap ImportText.bindings) =
        [⟨"first", "", .default, none⟩] := by
  decide +kernel

end PlanAudit.Packages
