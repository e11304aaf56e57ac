import PlanAudit.Proofs.Plan.Lines
import PlanAudit.Proofs.Sql.Calls
import PlanAudit.Proofs.Sql.ModuleStatements

/-!
# Specifiers of modules

The specifier behind the word `from` of a statement that imports or exports is not a table.  It is
told from one by its line: names on a line that begins with `import` or `export` are left out.  A
statement on one line is always recognized.  If its list of names spreads over several lines, the
word `from` stands on a line of its own, and a specifier that reads like a name is taken for a
table.

## Main definitions

* `ModuleStatement`: a statement that imports or exports
* `ModuleStatement.TakenForTable`: its specifier is taken for a table

## Main results

* `ModuleStatement.site`: the only table that can be read in a statement is its specifier
* `ModuleStatement.startsModuleLine_of_unbroken`: a statement on one line is recognized
-/

namespace PlanAudit.Sql

open Text Pattern

/-! ## Statements -/

/-- A statement that imports from a module or exports what a module has. -/
structure ModuleStatement where
  /-- What is imported or exported. -/
  clause : Clause
  /-- The text in front of the word `from`. -/
  head : List Char
  laidOut : LaidOut false clause.tokens head
  /-- What stands between the word `from` and the specifier. -/
  gap : Blanks
  gap_unbroken : '\n' ∉ gap.chars
  /-- The quotation mark on both sides of the specifier. -/
  quote : Char
  quote_eq : quote = '\'' ∨ quote = '"'
  /-- The specifier of the module. -/
  specifier : List Char
  specifier_plain : ∀ x ∈ specifier, isBlank x = false ∧ x ≠ quote ∧ x ≠ '\x60'
  specifier_callFree : CallFree specifier
  /-- Whether a semicolon follows. -/
  semicolon : Bool

namespace ModuleStatement

variable (s : ModuleStatement)

/-- The quoted specifier and what follows it. -/
def quoted : List Char :=
  s.quote :: (s.specifier ++ s.quote :: (if s.semicolon then [';'] else []))

/-- The text behind the word `from`. -/
def origin : List Char := s.gap.chars ++ s.quoted

/-- The text of the statement. -/
def chars : List Char := s.head ++ (fromChars ++ s.origin)

/-- The part of the specifier that reads like a name. -/
def leadingName : List Char := s.specifier.takeWhile isWord

/-- The rest of the specifier. -/
def unread : List Char := s.specifier.dropWhile isWord

/-- The line of the word `from`. -/
def line : List Char := Plan.lastLine s.head ++ (fromChars ++ s.origin)

/-- The line begins with `import` or `export`. -/
def StartsModuleLine (line : List Char) : Prop :=
  ∃ b w t, line = b ++ (w ++ t) ∧ (∀ x ∈ b, isBlank x = true) ∧
    w ∈ ["import".toList, "export".toList] ∧ ∀ x ∈ t.head?, isWord x = false

/-- The specifier stands behind white space and begins with a name that nothing continues. -/
def ReadsLikeTable : Prop :=
  s.gap.chars ≠ [] ∧ s.leadingName ≠ [] ∧ ∀ x ∈ s.unread.head?, continuesWord x = false

/-- The specifier is taken for a table: it reads like one, its name is no keyword, and its line does
not tell. -/
def TakenForTable : Prop :=
  s.ReadsLikeTable ∧ isKeyword (String.ofList s.leadingName) = false ∧ ¬ StartsModuleLine s.line

/-! ## The name that is read -/

section Name

variable {t n : List Char}

theorem isQuotation_quote : isQuotation s.quote = true := by
  rcases s.quote_eq with h | h <;> rw [h] <;> decide

theorem isKeywordLetter_quote : isKeywordLetter s.quote = false := by
  rcases s.quote_eq with h | h <;> rw [h] <;> decide

theorem head_quoted (t : List Char) :
    ∀ x ∈ (s.quoted ++ t).head?, isBlank x = false ∧ isKeywordLetter x = false :=
  forall_head?_cons ⟨(marks_of_isQuotation s.isQuotation_quote).1, s.isKeywordLetter_quote⟩

/-- What follows the name in the specifier. -/
theorem specifier_append (t : List Char) :
    s.quoted ++ t = s.quote :: (s.leadingName ++
      (s.unread ++ s.quote :: ((if s.semicolon then [';'] else []) ++ t))) := by
  simp [quoted, leadingName, unread, ← List.append_assoc (s.specifier.takeWhile isWord)]

theorem head_unread : ∀ x ∈ (s.unread ++ s.quote :: t).head?, isWord x = false := by
  unfold unread
  cases hrest : s.specifier.dropWhile isWord with
  | nil =>
    exact forall_head?_cons (isWord_of_continuesWord (marks_of_isQuotation s.isQuotation_quote).2)
  | cons x rest =>
    have hx := List.head_dropWhile_not isWord (l := s.specifier) (by simp [hrest])
    exact forall_head?_cons (by simpa [hrest] using hx)

/-- **The name that is read behind the word `from`** is the one with which the specifier begins. -/
theorem namedBy_quoted :
    NamedBy (s.quoted ++ t) n ↔ n = s.leadingName ∧ s.leadingName ≠ [] ∧
      ∀ x ∈ s.unread.head?, continuesWord x = false := by
  have hword : ∀ x ∈ s.leadingName, isWord x = true := fun x hx => List.mem_takeWhile_imp hx
  have hmark := (marks_of_isQuotation s.isQuotation_quote).2
  rw [s.specifier_append]
  constructor
  · rintro ⟨q, r, hrest, hq, ⟨hne, hn⟩, hr⟩
    rcases hq with rfl | ⟨x, rfl, -⟩
    · -- The quotation mark is not part of a name.
      obtain ⟨x, n, rfl⟩ := List.exists_cons_of_ne_nil hne
      obtain ⟨rfl, -⟩ := List.cons.inj hrest
      have hquote := isWord_of_continuesWord hmark
      rw [hn _ List.mem_cons_self] at hquote
      cases hquote
    · have hrest : _ = n ++ r := (List.cons.inj hrest).2
      have hr' : ∀ x ∈ r.head?, isWord x = false := fun x hx => isWord_of_continuesWord (hr x hx)
      obtain rfl : n = s.leadingName := by
        rw [← takeWhile_append hn hr']
        exact (congrArg _ hrest).symm.trans (takeWhile_append hword s.head_unread)
      refine ⟨rfl, hne, ?_⟩
      rw [← List.append_cancel_left hrest] at hr
      cases hunread : s.unread with
      | nil => exact fun x hx => nomatch hx
      | cons x rest =>
        rw [hunread] at hr
        exact forall_head?_cons (hr x rfl)
  · rintro ⟨rfl, hne, hunread⟩
    refine ⟨[s.quote], _, rfl, Or.inr ⟨s.quote, rfl, s.isQuotation_quote⟩, ⟨hne, hword⟩, ?_⟩
    cases hrest : s.unread with
    | nil => exact forall_head?_cons hmark
    | cons x rest => exact forall_head?_cons (hunread x (by rw [hrest]; rfl))

end Name

/-! ## Where a table is read -/

section Site

variable {t u w n : List Char}

theorem head_origin (t : List Char) : ∀ x ∈ (s.origin ++ t).head?, isWord x = false := by
  rw [origin, List.append_assoc]
  exact forall_head?_append (fun x hx => isWord_eq_false_of_isBlank (s.gap.blank x hx))
    (forall_head?_cons (isWord_of_continuesWord (marks_of_isQuotation s.isQuotation_quote).2))

/-- A word that ends like `from` is clear where no white space follows or it is no keyword. -/
theorem clear_ending (hw : w <:+ fromChars) (h : s.gap.chars = [] ∨ w ≠ fromChars) (t : List Char) :
    Clear w (s.origin ++ t) := by
  have hblank : ∀ x ∈ w, isBlank x = false := fun x hx => by
    have hfrom : ∀ x ∈ fromChars, isBlank x = false := by decide
    exact hfrom x (hw.subset hx)
  rw [origin, List.append_assoc]
  by_cases hgap : s.gap.chars = []
  · rw [hgap]
    exact clear_word hblank (s.head_quoted t)
  · refine clear_word_of_gap hblank ⟨s.gap, hgap⟩ (fun x hx => (s.head_quoted t x hx).1) ?_
    intro k hk hkeyword
    have hother : ∀ k ∈ fromChars.tails, IsTableKeyword k → k = fromChars := by decide
    obtain rfl := hother k ((List.mem_tails _ _).mpr (hk.trans hw)) hkeyword
    exact absurd (hw.eq_of_length_le hk.length_le) (h.resolve_left hgap)

/-- Behind the word `from` no keyword stands. -/
theorem clear_origin (t : List Char) : Clear s.origin t := by
  have hquote (r : List Char) : Clear [s.quote] r := clear_of_forall fun x hx => by
    rw [List.mem_singleton.mp hx]
    exact s.isKeywordLetter_quote
  have hspecifier : Clear s.specifier ((s.quote :: (if s.semicolon then [';'] else [])) ++ t) :=
    clear_word (fun x hx => (s.specifier_plain x hx).1)
      (forall_head?_cons ⟨(marks_of_isQuotation s.isQuotation_quote).1, s.isKeywordLetter_quote⟩)
  have hend : Clear (s.quote :: (if s.semicolon then [';'] else [])) t := by
    refine clear_of_forall fun x hx => ?_
    rcases List.mem_cons.mp hx with rfl | hx
    · exact s.isKeywordLetter_quote
    · split at hx
      · rw [List.mem_singleton.mp hx]
        decide
      · cases hx
  exact Avoids.append (clear_blank s.gap.blank)
    (Avoids.append (hquote _) (Avoids.append hspecifier hend))

/-- **A name behind a keyword in the statement** that is no keyword itself is the specifier behind
the word `from`. -/
theorem site (hsplit : s.chars ++ t = u ++ w) (hn : NamesTable w n)
    (hkeyword : isKeyword (String.ofList n) = false) :
    (u = s.head ∧ w = fromChars ++ (s.origin ++ t) ∧ n = s.leadingName ∧ s.ReadsLikeTable) ∨
      ∃ v, u = s.chars ++ v ∧ t = v ++ w := by
  rw [chars, List.append_assoc, List.append_assoc] at hsplit
  have hhead : Clear s.head (fromChars ++ (s.origin ++ t)) :=
    clear_of_laidOut s.laidOut (isChain_clause s.clause) (s.head_origin t)
  obtain ⟨v, rfl, hv⟩ := hhead.pass hsplit ⟨n, hn, hkeyword⟩
  cases v with
  | nil =>
    left
    have hw : w = fromChars ++ (s.origin ++ t) := hv.symm
    subst hw
    have hgap : s.gap.chars ≠ [] := fun hgap => by
      have hclear := s.clear_ending (List.suffix_refl fromChars) (Or.inl hgap) t
      exact hclear [] fromChars rfl (by decide) ⟨n, hn, hkeyword⟩
    have hname : NamesTable (fromChars ++ (s.gap.chars ++ (s.quoted ++ t))) n := by
      rwa [origin, List.append_assoc] at hn
    obtain ⟨-, hname⟩ := of_namesTable_gap (by decide) ⟨s.gap, hgap⟩
      (fun x hx => (s.head_quoted t x hx).1) hname
    obtain ⟨rfl, hne, hunread⟩ := s.namedBy_quoted.mp hname
    exact ⟨List.append_nil _, rfl, rfl, hgap, hne, hunread⟩
  | cons x v =>
    right
    -- The name stands behind the first letter of the word.
    obtain ⟨rfl, hrest⟩ := List.cons.inj hv
    have hrest : ['r', 'o', 'm'] ++ (s.origin ++ t) = v ++ w := hrest
    obtain ⟨v, rfl, horigin⟩ :=
      (s.clear_ending (by decide) (Or.inr (by decide)) t).pass hrest ⟨n, hn, hkeyword⟩
    obtain ⟨v, rfl, ht⟩ := (s.clear_origin t).pass horigin ⟨n, hn, hkeyword⟩
    exact ⟨v, by simp [chars, fromChars], ht⟩

end Site

/-! ## The line of the word `from` -/

/-- A line is passed over exactly if it begins with `import` or `export`. -/
theorem matchesStart_moduleLine {line : List Char} :
    moduleLine.matchesStart line = true ↔ StartsModuleLine line := by
  have hlast : ∀ w ∈ ["import".toList, "export".toList], w.getLast? = some 't' := by decide
  have hword : isWord 't' = true := by decide
  rw [matchesStart_iff]
  constructor
  · rintro ⟨d, hd⟩
    obtain ⟨e, hd, hedge⟩ := mem_outcomes_append.mp hd
    obtain ⟨hedge, rfl⟩ := mem_outcomes_here.mp hedge
    obtain ⟨c, hblanks, hkeyword⟩ := mem_outcomes_append.mp hd
    obtain ⟨b, hb, hblank⟩ := exists_reads (p := blanks) (fun x hx => hx) _ c hblanks
    obtain ⟨k, hk, hread⟩ := exists_reads_of_mem_oneOfTexts hkeyword
    have hk : k.toList ∈ ["import".toList, "export".toList] := List.mem_map_of_mem hk
    have hsilent : (oneOfTexts ["import", "export"]).Silent := ⟨silent_lit _, silent_lit _⟩
    have hbefore : d.before = some 't' := by
      rw [eq_behind_of_reads hsilent hkeyword hread, Cursor.behind_before, hlast _ hk]
      rfl
    refine ⟨b, k.toList, d.rest, ?_, hblank, hk, fun x hx => ?_⟩
    · rw [← hread.rest_eq]
      exact hb.rest_eq
    · rw [hbefore, hx] at hedge
      simpa [hword] using hedge
  · rintro ⟨b, w, t, rfl, hb, hw, ht⟩
    have hblanks : blanks.Admits b (w ++ t) := admits_loop_one hb (Nat.zero_le _)
    have hkeyword : (oneOfTexts ["import", "export"]).Admits w t := by
      intro c hrest
      rcases List.mem_pair.mp hw with rfl | rfl
      · exact mem_outcomes_alt.mpr (Or.inl ((takes_lit _).admits c hrest))
      · exact mem_outcomes_alt.mpr (Or.inr ((takes_lit _).admits c hrest))
    let c : Cursor := ⟨none, 0, b ++ (w ++ t), []⟩
    refine ⟨(c.behind b (w ++ t)).behind w t, mem_outcomes_append.mpr ⟨_, mem_outcomes_append.mpr
      ⟨_, hblanks c rfl, hkeyword _ rfl⟩, mem_outcomes_here.mpr ⟨?_, rfl⟩⟩⟩
    rw [Cursor.behind_before, hlast w hw, Cursor.behind_rest]
    cases t with
    | nil => simp [hword]
    | cons x t => simp [hword, ht x rfl]

theorem lineFeed_not_mem_origin : '\n' ∉ s.origin := by
  have hspecifier : '\n' ∉ s.specifier := fun h =>
    absurd (s.specifier_plain _ h).1 (by decide)
  have hquote : '\n' ≠ s.quote := by
    rcases s.quote_eq with h | h <;> rw [h] <;> decide
  cases hs : s.semicolon <;> simp [origin, quoted, s.gap_unbroken, hspecifier, hquote, hs]

/-- **A statement on one line begins with `import` or `export`.** -/
theorem startsModuleLine_of_unbroken (h : '\n' ∉ s.head) : StartsModuleLine s.line := by
  obtain ⟨x, t, hhead, hx⟩ := s.laidOut.exists_word
  refine ⟨[], s.clause.keyword.chars, x :: t ++ (fromChars ++ s.origin), ?_, by simp, ?_,
    forall_head?_cons (isWord_eq_false_of_isKeyChar hx)⟩
  · rw [line, Plan.lastLine_eq_self h, hhead]
    simp
  · rcases s.clause.keyword_eq with hk | hk <;> rw [hk] <;> decide

end ModuleStatement

end PlanAudit.Sql
