import PlanAudit.Proofs.Pattern.AnyCase
import PlanAudit.Proofs.Pattern.Positions
import PlanAudit.Proofs.Text.ObjectKeys
import PlanAudit.Sql.Mentions

/-!
# Names behind keywords

A table is looked for behind a keyword of SQL, white space and perhaps a quotation mark.  Such a
place is taken apart in one way only: the keyword holds no white space and the name holds neither
white space nor marks.  A text is therefore searched word by word, and a word is passed over unless
it is one of the keywords and a name follows it.

## Main definitions

* `IsTableKeyword`: a keyword in any case
* `NamesTable text name`: the text begins with a keyword and the name of a table
* `Clear w t`: every name behind a keyword in `w`, which stands in front of `t`, is itself a keyword

## Main results

* `namesTable_of_matchHere`: what a match reads
* `exists_matchHere_tableAfterKeyword`: a name behind the word `from` is read
* `mem_findAll_behind_brace`: what is read behind a closing brace is found
* `clear_word`, `clear_word_of_gap`: words without a name behind a keyword
-/

namespace PlanAudit.Sql

open Text Pattern

/-! ## Keywords in any case -/

/-- The keywords behind which a table is looked for. -/
def tableKeywords : List String := ["FROM", "INTO", "UPDATE", "JOIN"]

/-- A keyword in any case. -/
def IsTableKeyword (w : List Char) : Prop :=
  ∃ s ∈ tableKeywords, List.Forall₂ (fun x c => sameLetter x c = true) w s.toList

/-- A letter of a keyword in either case. -/
def isKeywordLetter (x : Char) : Bool :=
  tableKeywords.any fun s => s.toList.any fun c => sameLetter x c

section Keywords

variable {w : List Char}

instance : DecidablePred IsTableKeyword := fun w =>
  inferInstanceAs (Decidable (∃ s ∈ tableKeywords,
    List.Forall₂ (fun x c => sameLetter x c = true) w s.toList))

theorem IsTableKeyword.ne_nil (h : IsTableKeyword w) : w ≠ [] := by
  rintro rfl
  revert h
  decide

theorem IsTableKeyword.isKeywordLetter (h : IsTableKeyword w) :
    ∀ x ∈ w, isKeywordLetter x = true := by
  obtain ⟨s, hs, hspells⟩ := h
  intro x hx
  obtain ⟨c, hc, hsame⟩ := Spells.exists_sameLetter hspells hx
  exact List.any_eq_true.mpr ⟨s, hs, List.any_eq_true.mpr ⟨c, hc, hsame⟩⟩

/-- The codes of white space. -/
def blankCodes : List Nat :=
  ((0x09, 0x0D) :: (0x1C, 0x20) :: blankRanges).flatMap fun r => List.range' r.1 (r.2 + 1 - r.1)

theorem toNat_mem_blankCodes {x : Char} (h : isBlank x = true) : x.toNat ∈ blankCodes := by
  have hrange : ∀ r ∈ (0x09, 0x0D) :: (0x1C, 0x20) :: blankRanges, r.1 ≤ x.toNat → x.toNat ≤ r.2 →
      x.toNat ∈ blankCodes := by
    intro r hr hfirst hlast
    refine List.mem_flatMap.mpr ⟨r, hr, List.mem_range'_1.mpr ⟨hfirst, ?_⟩⟩
    omega
  unfold isBlank at h
  split at h
  · simp only [isBlankAscii, Bool.or_eq_true, beq_iff_eq, Bool.and_eq_true, decide_eq_true_eq] at h
    rcases h with (rfl | ⟨hfirst, hlast⟩) | ⟨hfirst, hlast⟩
    · decide
    · exact hrange (0x09, 0x0D) (by decide) hfirst hlast
    · exact hrange (0x1C, 0x20) (by decide) hfirst (Nat.le_trans hlast (by decide))
  · obtain ⟨r, hr, hx⟩ := List.any_eq_true.mp h
    rw [Bool.and_eq_true, decide_eq_true_eq, decide_eq_true_eq] at hx
    exact hrange r (List.mem_cons_of_mem _ (List.mem_cons_of_mem _ hr)) hx.1 hx.2

/-- What holds of no code of white space holds of no white space. -/
theorem eq_false_of_isBlank {p : Char → Bool} (hp : ∀ n ∈ blankCodes, p (Char.ofNat n) = false)
    {x : Char} (h : isBlank x = true) : p x = false := by
  have hcode := hp _ (toNat_mem_blankCodes h)
  rwa [Char.ofNat_toNat] at hcode

/-- White space is no letter. -/
theorem isKeywordLetter_eq_false_of_isBlank {x : Char} (h : isBlank x = true) :
    isKeywordLetter x = false :=
  eq_false_of_isBlank (by decide +kernel) h

theorem IsTableKeyword.not_blank (h : IsTableKeyword w) : ∀ x ∈ w, isBlank x = false := by
  intro x hx
  by_contra hblank
  have hletter := isKeywordLetter_eq_false_of_isBlank (by simpa using hblank)
  rw [h.isKeywordLetter x hx] at hletter
  cases hletter

end Keywords

/-! ## A keyword and a name -/

theorem isBlank_of_mem_replicate (n : Nat) : ∀ c ∈ List.replicate n ' ', isBlank c = true := by
  intro c hc
  rw [List.eq_of_mem_replicate hc]
  decide

/-- Spaces on a line. -/
def spaces (n : Nat) : Blanks := ⟨List.replicate n ' ', isBlank_of_mem_replicate n⟩

/-- At its start, or behind a quotation mark, the text has the name `n`, which nothing continues. -/
def NamedBy (text n : List Char) : Prop :=
  ∃ q t, text = q ++ (n ++ t) ∧ (q = [] ∨ ∃ x, q = [x] ∧ isQuotation x = true) ∧
    (n ≠ [] ∧ ∀ x ∈ n, isWord x = true) ∧ ∀ x ∈ t.head?, continuesWord x = false

/-- The text begins with a keyword, white space and the name `n` of a table. -/
def NamesTable (text n : List Char) : Prop :=
  ∃ k, ∃ gap : Gap, ∃ t, text = k ++ (gap.chars ++ t) ∧ IsTableKeyword k ∧ NamedBy t n

/-- A keyword starts with a letter. -/
theorem exists_letter_of_namesTable {t n : List Char} (h : NamesTable t n) :
    ∃ x rest, t = x :: rest ∧ isKeywordLetter x = true := by
  obtain ⟨k, gap, r, rfl, hk, -⟩ := h
  obtain ⟨x, k, rfl⟩ := List.exists_cons_of_ne_nil hk.ne_nil
  exact ⟨x, k ++ (gap.chars ++ r), rfl, hk.isKeywordLetter x List.mem_cons_self⟩

theorem isWord_of_continuesWord {x : Char} (h : continuesWord x = false) : isWord x = false := by
  simp only [continuesWord, Bool.or_eq_false_iff] at h
  exact h.1.1.1.1

theorem marks_of_isQuotation {x : Char} (h : isQuotation x = true) :
    isBlank x = false ∧ continuesWord x = false := by
  have hmarks : ∀ y ∈ "'\"\x60".toList, isBlank y = false ∧ continuesWord y = false := by decide
  exact hmarks x (List.contains_iff_mem.mp h)

section Reading

variable {c d : Cursor}

/-- **What a match reads**: a keyword, white space and the name that it records. -/
theorem namesTable_of_mem_outcomes (hd : d ∈ tableAfterKeyword.outcomes c) :
    ∃ n, NamesTable c.rest n ∧ ∃ k ∈ d.captures.head?, k.index = 1 ∧ k.text = n := by
  obtain ⟨c₆, hd, hend⟩ := mem_outcomes_append.mp hd
  obtain ⟨hend, rfl⟩ := mem_outcomes_here.mp hend
  obtain ⟨c₅, hd, hclose⟩ := mem_outcomes_append.mp hd
  obtain ⟨c₄, hd, hname⟩ := mem_outcomes_append.mp hd
  obtain ⟨c₃, hd, hopen⟩ := mem_outcomes_append.mp hd
  obtain ⟨c₂, hd, hgap⟩ := mem_outcomes_append.mp hd
  obtain ⟨c₁, hedge, hkeyword⟩ := mem_outcomes_append.mp hd
  obtain ⟨-, rfl⟩ := mem_outcomes_here.mp hedge
  obtain ⟨e, he, rfl⟩ := mem_outcomes_capture.mp hname
  obtain ⟨s, hs, k, hk, hsame⟩ := exists_reads_of_mem_oneOfTextsAnyCase hkeyword
  obtain ⟨gap, hgap⟩ := exists_gap_of_mem_blanks1 hgap
  obtain ⟨n, hn, hne, hword⟩ := exists_reads_of_mem_plus he
  -- The quotation marks, if there are any.
  have hquote : ∀ {x y : Cursor}, y ∈ (opt anyQuote).outcomes x →
      ∃ q, x.Reads q y ∧ (q = [] ∨ ∃ z, q = [z] ∧ isQuotation z = true) ∧
        y.captures = x.captures := by
    intro x y hy
    rcases eq_or_mem_of_mem_opt hy with rfl | hy
    · exact ⟨[], Cursor.Reads.refl y, Or.inl rfl, rfl⟩
    · obtain ⟨z, zs, hrest, hz, rfl⟩ := mem_outcomes_one.mp hy
      exact ⟨[z], Cursor.Reads.advance hrest, Or.inr ⟨z, rfl, hz⟩, rfl⟩
  obtain ⟨q, hq, hqMark, -⟩ := hquote hopen
  obtain ⟨r, hr, hrMark, hcaptures⟩ := hquote hclose
  have hnext : ∀ x ∈ (r ++ d.rest).head?, continuesWord x = false := by
    have hrest : ∀ x ∈ d.rest.head?, continuesWord x = false := by
      intro x hx
      rw [hx] at hend
      simpa using hend
    rcases hrMark with rfl | ⟨z, rfl, hz⟩
    · exact hrest
    · exact forall_head?_cons (marks_of_isQuotation hz).2
  refine ⟨n, ⟨k, gap, q ++ (n ++ (r ++ d.rest)), ?_, ⟨s, hs, hsame⟩,
    q, r ++ d.rest, rfl, hqMark, ⟨hne, hword⟩, hnext⟩,
    ⟨1, c₄.offset, e.offset, c₄.rest⟩, ?_, rfl, hn.take_eq⟩
  · rw [hk.rest_eq, hgap.rest_eq, hq.rest_eq, hn.rest_eq]
    exact congrArg (fun t => k ++ (gap.chars ++ (q ++ (n ++ t)))) hr.rest_eq
  · rw [hcaptures]
    exact rfl

theorem namesTable_of_matchHere {before : Option Char} {offset : Nat} {text : List Char} {m : Match}
    (h : tableAfterKeyword.matchHere before offset text = some m) :
    m.start = offset ∧ NamesTable text (m.group 1) := by
  obtain ⟨d, hd, rfl⟩ := exists_outcome_of_matchHere h
  obtain ⟨n, hn, k, hk, hindex, htext⟩ := namesTable_of_mem_outcomes hd
  refine ⟨rfl, ?_⟩
  have hfind : d.captures.find? (·.index == 1) = some k := by
    obtain ⟨rest, hrest⟩ : ∃ rest, d.captures = k :: rest := List.head?_eq_some_iff.mp hk
    rw [hrest, List.find?_cons_of_pos (by simp [hindex])]
  rw [Match.group, Match.capture?, hfind]
  dsimp only
  rwa [htext]

/-- **A name behind the word `from` is found**, in whatever way it goes on. -/
theorem exists_matchHere_tableAfterKeyword {before : Option Char} {t n : List Char}
    (hbefore : ∀ x ∈ before, isWord x = false) (gap : Gap) (hname : NamedBy t n) (offset : Nat) :
    ∃ m, tableAfterKeyword.matchHere before offset ("from".toList ++ (gap.chars ++ t)) =
      some m := by
  obtain ⟨q, r, rfl, hq, ⟨hne, hword⟩, hnext⟩ := hname
  let c : Cursor := ⟨before, offset, "from".toList ++ (gap.chars ++ (q ++ (n ++ r))), []⟩
  have hedge : c ∈ wordEdge.outcomes c := by
    refine mem_outcomes_here.mpr ⟨?_, rfl⟩
    have hfirst : isWord 'f' = true := by decide
    cases before with
    | none => exact bne_iff_ne.mpr (by simp [c, hfirst])
    | some x => exact bne_iff_ne.mpr (by simp [c, hfirst, hbefore x rfl])
  have hkeyword : (oneOfTextsAnyCase tableKeywords).Admits "from".toList
      (gap.chars ++ (q ++ (n ++ r))) := by
    have hfrom : (litAnyCase "FROM").Admits "from".toList (gap.chars ++ (q ++ (n ++ r))) :=
      (takes_litAnyCase (by decide)).admits
    exact fun c hrest => mem_outcomes_alt.mpr (Or.inl (hfrom c hrest))
  have hblanks : blanks1.Admits gap.chars (q ++ (n ++ r)) :=
    admits_loop_one gap.blank (List.length_pos_of_ne_nil gap.ne_nil)
  have hquote : (opt anyQuote).Admits q (n ++ r) := by
    rcases hq with rfl | ⟨x, rfl, hx⟩
    · exact admits_opt_nil
    · exact (takes_one hx).admits.opt (List.cons_ne_nil x [])
  have hread : Pattern.name.Admits n r := admits_loop_one hword (List.length_pos_of_ne_nil hne)
  have hend : (opt anyQuote).Admits [] r := admits_opt_nil
  let c₁ := c.behind "from".toList (gap.chars ++ (q ++ (n ++ r)))
  let c₂ := c₁.behind gap.chars (q ++ (n ++ r))
  let c₃ := c₂.behind q (n ++ r)
  let c₄ := (c₃.behind n r).record 1 c₃
  have hstop : c₄ ∈ (opt anyQuote).outcomes c₄ := by
    have hbehind : c₄.behind [] r = c₄ := Cursor.behind_nil rfl
    exact hbehind ▸ hend c₄ rfl
  have hnext : c₄ ∈ (notBefore continuesWord).outcomes c₄ := by
    refine mem_outcomes_here.mpr ⟨?_, rfl⟩
    cases r with
    | nil => rfl
    | cons x r => simp [c₄, Cursor.record, hnext x rfl]
  have hmem : c₄ ∈ tableAfterKeyword.outcomes c :=
    mem_outcomes_append.mpr ⟨c₄, mem_outcomes_append.mpr ⟨c₄, mem_outcomes_append.mpr ⟨c₃,
      mem_outcomes_append.mpr ⟨c₂, mem_outcomes_append.mpr ⟨c₁, mem_outcomes_append.mpr ⟨c, hedge,
        hkeyword c rfl⟩, hblanks c₁ rfl⟩, hquote c₂ rfl⟩,
      mem_outcomes_capture.mpr ⟨_, hread c₃ rfl, rfl⟩⟩, hstop⟩, hnext⟩
  exact exists_matchHere_of_mem_outcomes hmem

theorem readsOnly_tableAfterKeyword : tableAfterKeyword.ReadsOnly (· ≠ '}') := by
  have hone {accepts : Char → Bool} (h : accepts '}' = false) :
      (one accepts).ReadsOnly (· ≠ '}') := by
    rintro x hx rfl
    rw [h] at hx
    cases hx
  have hkeyword : (oneOfTextsAnyCase tableKeywords).ReadsOnly (· ≠ '}') := by
    refine readsOnly_oneOfTextsAnyCase ?_
    rintro s hs y hy x hx rfl
    revert s y
    decide
  exact ⟨⟨⟨⟨⟨⟨trivial, hkeyword⟩, hone (by decide)⟩, hone (by decide)⟩, hone (by decide)⟩,
    hone (by decide)⟩, trivial⟩

/-- **A match behind a closing brace and white space is found**: a match that starts earlier ends in
front of the brace, and none starts in the white space. -/
theorem mem_findAll_behind_brace {u g t : List Char} (hg : ∀ x ∈ g, isBlank x = true) {m : Match}
    (hm : tableAfterKeyword.matchHere (u ++ '}' :: g).getLast? (u ++ '}' :: g).length t = some m) :
    m ∈ tableAfterKeyword.findAll ((u ++ '}' :: g) ++ t) := by
  rw [List.append_cons] at hm ⊢
  refine mem_findAll_behind hm (fun v w hsplit hw first hfirst => ?_) fun before => ?_
  · obtain ⟨d, hd, rfl⟩ := exists_outcome_of_matchHere hfirst
    have hbrace : '}' ∈ w := by
      have hlast := congrArg List.getLast? hsplit
      rw [List.getLast?_concat, List.getLast?_append_of_ne_nil v hw] at hlast
      exact List.mem_of_getLast? hlast.symm
    rw [hsplit, List.length_append]
    exact Nat.le_of_lt (add_lt_of_readsOnly readsOnly_tableAfterKeyword hd rfl hbrace)
  · have hbegins : Begins (fun t => ∃ n, NamesTable t n) tableAfterKeyword :=
      fun c d hd => (namesTable_of_mem_outcomes hd).imp fun n hn => hn.1
    exact hbegins.quiet (avoids_of_head (fun _ ⟨_, hn⟩ => exists_letter_of_namesTable hn)
      fun x hx => isKeywordLetter_eq_false_of_isBlank (hg x hx))

end Reading

/-! ## Texts without a name behind a keyword -/

/-- The text begins with a keyword and a name that is no keyword itself. -/
def StartsTable (text : List Char) : Prop :=
  ∃ n, NamesTable text n ∧ isKeyword (String.ofList n) = false

/-- Every name behind a keyword in `w`, which stands in front of `t`, is itself a keyword. -/
def Clear (w t : List Char) : Prop := Avoids StartsTable w t

section Clear

variable {w t n : List Char}

theorem clear_of_forall (h : ∀ x ∈ w, isKeywordLetter x = false) : Clear w t :=
  avoids_of_head (fun _ ⟨_, hn, _⟩ => exists_letter_of_namesTable hn) h

/-- White space is clear. -/
theorem clear_blank (h : ∀ x ∈ w, isBlank x = true) : Clear w t :=
  clear_of_forall fun x hx => isKeywordLetter_eq_false_of_isBlank (h x hx)

/-- **Words that no white space follows** are clear: a keyword would end in front of it. -/
theorem clear_word (hw : ∀ x ∈ w, isBlank x = false)
    (ht : ∀ x ∈ t.head?, isBlank x = false ∧ isKeywordLetter x = false) : Clear w t := by
  rintro u s hsplit - ⟨n, ⟨k, gap, r, hrest, hk, -⟩, -⟩
  obtain ⟨x, between, hgap, hx⟩ := gap.exists_cons
  rw [hgap] at hrest
  have hfree : x ∉ s := fun hmem => by
    rw [hw x (by simp [hsplit, hmem])] at hx
    cases hx
  -- The keyword ends in front of the white space, which is not in the word.
  obtain ⟨z, rfl⟩ := exists_eq_append_of_not_mem hfree hrest
  rw [List.append_assoc] at hrest
  rw [List.append_cancel_left hrest] at ht
  cases z with
  | nil =>
    rw [(ht x rfl).1] at hx
    cases hx
  | cons y z =>
    have hletter := hk.isKeywordLetter y (by simp)
    rw [(ht y rfl).2] at hletter
    cases hletter

theorem NamedBy.head (h : NamedBy t n) : ∀ x ∈ t.head?, isBlank x = false := by
  obtain ⟨q, r, rfl, hq, ⟨hne, hword⟩, -⟩ := h
  rcases hq with rfl | ⟨x, rfl, hx⟩
  · obtain ⟨x, n, rfl⟩ := List.exists_cons_of_ne_nil hne
    exact forall_head?_cons (isBlank_eq_false_of_isWord (hword x List.mem_cons_self))
  · exact forall_head?_cons (marks_of_isQuotation hx).1

/-- **What is read in front of white space**: the word is the keyword, and the name begins where the
white space ends. -/
theorem of_namesTable_gap (hw : ∀ x ∈ w, isBlank x = false) (gap : Gap)
    (ht : ∀ x ∈ t.head?, isBlank x = false) (h : NamesTable (w ++ (gap.chars ++ t)) n) :
    IsTableKeyword w ∧ NamedBy t n := by
  obtain ⟨k, gap', r, hrest, hk, hname⟩ := h
  -- The first word of either reading ends where the white space begins.
  have hword {w t : List Char} (hw : ∀ x ∈ w, isBlank x = false) (gap : Gap) :
      (w ++ (gap.chars ++ t)).takeWhile (!isBlank ·) = w := by
    refine takeWhile_append (fun y hy => by simp [hw y hy]) fun x hx => ?_
    simp [gap.head_blank t x hx]
  obtain rfl : w = k := by rw [← hword hw gap, hrest, hword hk.not_blank gap']
  have hrest := List.append_cancel_left hrest
  obtain rfl : t = r := by
    rw [← dropWhile_append gap.blank ht, hrest, dropWhile_append gap'.blank hname.head]
  exact ⟨hk, hname⟩

/-- The name is the word that stands there. -/
theorem NamedBy.eq_of_word (hne : w ≠ []) (hw : ∀ x ∈ w, isWord x = true)
    (ht : ∀ x ∈ t.head?, isWord x = false) (h : NamedBy (w ++ t) n) : n = w := by
  obtain ⟨q, r, hrest, hq, ⟨-, hn⟩, hr⟩ := h
  have hr : ∀ x ∈ r.head?, isWord x = false := fun x hx => isWord_of_continuesWord (hr x hx)
  rcases hq with rfl | ⟨x, rfl, hx⟩
  · rw [← takeWhile_append hw ht, hrest]
    exact (takeWhile_append hn hr).symm
  · obtain ⟨y, w, rfl⟩ := List.exists_cons_of_ne_nil hne
    obtain ⟨rfl, -⟩ := List.cons.inj hrest
    have hword := isWord_of_continuesWord (marks_of_isQuotation hx).2
    rw [hw y List.mem_cons_self] at hword
    cases hword

/-- No name begins with a character that is neither part of a name nor a quotation mark. -/
theorem not_namedBy {x : Char} (hword : isWord x = false) (hmark : isQuotation x = false) :
    ¬ NamedBy (x :: t) n := by
  rintro ⟨q, r, hrest, hq, ⟨hne, hn⟩, -⟩
  rcases hq with rfl | ⟨y, rfl, hy⟩
  · obtain ⟨y, n, rfl⟩ := List.exists_cons_of_ne_nil hne
    obtain ⟨rfl, -⟩ := List.cons.inj hrest
    rw [hn x List.mem_cons_self] at hword
    cases hword
  · obtain ⟨rfl, -⟩ := List.cons.inj hrest
    rw [hy] at hmark
    cases hmark

/-- **A word in front of white space is clear** if a name that follows is a keyword, or if it does
not end in a keyword itself. -/
theorem clear_word_of_gap (hw : ∀ x ∈ w, isBlank x = false) (gap : Gap)
    (ht : ∀ x ∈ t.head?, isBlank x = false)
    (h : ∀ k, k <:+ w → IsTableKeyword k → ∀ n, NamedBy t n → isKeyword (String.ofList n) = true) :
    Clear w (gap.chars ++ t) := by
  rintro u s hsplit - ⟨n, hn, hother⟩
  have hsuffix : s <:+ w := ⟨u, hsplit.symm⟩
  obtain ⟨hk, hname⟩ := of_namesTable_gap (fun x hx => hw x (hsuffix.subset hx)) gap ht hn
  rw [h s hsuffix hk n hname] at hother
  cases hother

end Clear

end PlanAudit.Sql
