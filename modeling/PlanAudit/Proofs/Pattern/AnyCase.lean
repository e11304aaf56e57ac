import Mathlib.Data.List.Forall2
import PlanAudit.Proofs.Pattern.Choices

/-!
# Fixed texts in any case

A fixed text that is matched without regard to case reads as many characters as it has, each of them
the same letter as its own.  Nothing else decides: what stands in front of such a text and behind it
is not looked at.

## Main definitions

* `Spells w s`: the characters of `w` are those of `s` up to case

## Main results

* `mem_outcomes_litAnyCase`: what a fixed text reads, in both directions
* `takes_litAnyCase`: it reads every spelling
* `ne_lineFeed_of_sameLetter`: a line feed is no letter of a name
-/

namespace PlanAudit.Pattern

open Text

/-! ## Spellings -/

/-- The characters of `w` are those of `s` up to case. -/
def Spells (w s : List Char) : Prop := List.Forall₂ (fun x c => sameLetter x c = true) w s

section Spells

variable {u v w s t : List Char}

instance : Decidable (Spells w s) :=
  inferInstanceAs (Decidable (List.Forall₂ (fun x c => sameLetter x c = true) w s))

theorem spells_refl (s : List Char) : Spells s s := by
  induction s with
  | nil => exact List.Forall₂.nil
  | cons c s ih => exact List.Forall₂.cons (sameLetter_self c) ih

theorem Spells.length_eq (h : Spells w s) : w.length = s.length := List.Forall₂.length_eq h

theorem Spells.append (hu : Spells u s) (hv : Spells v t) : Spells (u ++ v) (s ++ t) :=
  List.rel_append hu hv

/-- What spells two texts one after the other spells each of them. -/
theorem Spells.exists_append (h : Spells w (s ++ t)) :
    ∃ u v, w = u ++ v ∧ Spells u s ∧ Spells v t := by
  refine ⟨w.take s.length, w.drop s.length, (List.take_append_drop _ w).symm, ?_, ?_⟩
  · have htake := List.forall₂_take s.length h
    rwa [List.take_left] at htake
  · have hdrop := List.forall₂_drop s.length h
    rwa [List.drop_left] at hdrop

/-- Every character of a spelling is the same letter as one of the text. -/
theorem Spells.exists_sameLetter (h : Spells w s) {x : Char} (hx : x ∈ w) :
    ∃ c ∈ s, sameLetter x c = true := by
  induction h with
  | nil => cases hx
  | cons hxc _ ih =>
    rcases List.mem_cons.mp hx with rfl | hx
    · exact ⟨_, List.mem_cons_self, hxc⟩
    · obtain ⟨c, hc, hsame⟩ := ih hx
      exact ⟨c, List.mem_cons_of_mem _ hc, hsame⟩

end Spells

/-! ## What a fixed text reads -/

section Reading

variable {c d : Cursor} {s : String} {w t : List Char}

theorem exists_reads_of_mem_litAnyCase (h : d ∈ (litAnyCase s).outcomes c) :
    ∃ w, c.Reads w d ∧ Spells w s.toList := by
  unfold litAnyCase at h
  generalize s.toList = letters at h ⊢
  induction letters generalizing c with
  | nil =>
    obtain rfl : d = c := List.mem_singleton.mp h
    exact ⟨[], Cursor.Reads.refl d, List.Forall₂.nil⟩
  | cons y letters ih =>
    have hone : ∀ {e : Cursor}, e ∈ (charAnyCase y).outcomes c →
        ∃ x, c.Reads [x] e ∧ sameLetter x y = true := by
      intro e he
      obtain ⟨x, xs, hrest, hx, rfl⟩ := mem_outcomes_one.mp he
      exact ⟨x, Cursor.Reads.advance hrest, hx⟩
    cases letters with
    | nil =>
      obtain ⟨x, hread, hx⟩ := hone h
      exact ⟨[x], hread, List.Forall₂.cons hx List.Forall₂.nil⟩
    | cons z letters =>
      obtain ⟨e, he, hde⟩ := mem_outcomes_append.mp h
      obtain ⟨x, hread, hx⟩ := hone he
      obtain ⟨w, hw, hsame⟩ := ih hde
      exact ⟨[x] ++ w, hread.trans hw, List.Forall₂.cons hx hsame⟩

theorem takes_litAnyCase (h : Spells w s.toList) : (litAnyCase s).Takes w t := by
  unfold litAnyCase
  generalize s.toList = letters at h ⊢
  induction h with
  | nil =>
    intro α c next a hrest hnext
    rwa [Cursor.behind_nil (by simpa using hrest)] at hnext
  | @cons x y w letters hx htail ih =>
    have hone {r : List Char} : (charAnyCase y).Takes [x] r := takes_one hx
    cases htail with
    | nil => exact hone
    | cons _ _ => exact hone.append ih

@[simp] theorem silent_litAnyCase (s : String) : (litAnyCase s).Silent :=
  silent_chain (List.forall_mem_map.mpr fun _ _ => trivial)

/-- **What a fixed text reads** is a spelling of it. -/
theorem mem_outcomes_litAnyCase :
    d ∈ (litAnyCase s).outcomes c ↔
      ∃ w t, Spells w s.toList ∧ c.rest = w ++ t ∧ d = c.behind w t := by
  constructor
  · intro hd
    obtain ⟨w, hread, hw⟩ := exists_reads_of_mem_litAnyCase hd
    exact ⟨w, d.rest, hw, hread.rest_eq, eq_behind_of_reads (silent_litAnyCase s) hd hread⟩
  · rintro ⟨w, t, hw, hrest, rfl⟩
    exact (takes_litAnyCase hw).admits c hrest

theorem mem_outcomes_oneOfTextsAnyCase {texts : List String} :
    d ∈ (oneOfTextsAnyCase texts).outcomes c ↔ ∃ s ∈ texts, d ∈ (litAnyCase s).outcomes c := by
  rw [oneOfTextsAnyCase, mem_outcomes_anyOf]
  simp only [List.mem_map, exists_exists_and_eq_and]

theorem exists_reads_of_mem_oneOfTextsAnyCase {texts : List String}
    (h : d ∈ (oneOfTextsAnyCase texts).outcomes c) :
    ∃ s ∈ texts, ∃ w, c.Reads w d ∧ Spells w s.toList := by
  obtain ⟨s, hs, hd⟩ := mem_outcomes_oneOfTextsAnyCase.mp h
  exact ⟨s, hs, exists_reads_of_mem_litAnyCase hd⟩

/-- What is read in any case are letters that are the same up to case. -/
theorem readsOnly_oneOfTextsAnyCase {S : Char → Prop} {texts : List String}
    (h : ∀ s ∈ texts, ∀ y ∈ s.toList, ∀ x, sameLetter x y = true → S x) :
    (oneOfTextsAnyCase texts).ReadsOnly S := by
  have hone : ∀ letters : List Char, (∀ y ∈ letters, ∀ x, sameLetter x y = true → S x) →
      (chain (letters.map charAnyCase)).ReadsOnly S := by
    intro letters hletters
    induction letters with
    | nil => trivial
    | cons y letters ih =>
      obtain ⟨hy, hletters⟩ := List.forall_mem_cons.mp hletters
      cases letters with
      | nil => exact hy
      | cons z letters => exact ⟨hy, ih hletters⟩
  induction texts with
  | nil => trivial
  | cons s texts ih =>
    obtain ⟨hs, htexts⟩ := List.forall_mem_cons.mp h
    cases texts with
    | nil => exact hone _ hs
    | cons t texts => exact ⟨hone _ hs, ih htexts⟩

theorem startsWith_litAnyCase {S : Char → Bool} {y : Char} (hs : s.toList = y :: t)
    (hy : ∀ x, sameLetter x y = true → S x = true) : StartsWith S (litAnyCase s) := by
  intro c d hd
  obtain ⟨w, hw, hspells⟩ := exists_reads_of_mem_litAnyCase hd
  rw [hs] at hspells
  cases hspells with
  | cons hx _ => exact ⟨_, _, hw.rest_eq, hy _ hx⟩

end Reading

/-! ## Letters -/

/-- No letter stands for a line feed. -/
theorem foldedChar_eq_lineFeed {x : Char} (h : foldedChar x = '\n') : x = '\n' := by
  -- Every row of the table leads to a code beyond that of the line feed.
  have hrows : ∀ row ∈ lowerRows, 10 < (row.first : Int) + row.shift := by decide +kernel
  unfold foldedChar at h
  split at h
  · split at h
    · rename_i hsmall hupper
      have hcode : ∀ n < 128, isUpperAscii (Char.ofNat n) = true →
          Char.ofNat (n + 32) ≠ '\n' := by decide
      have hne := hcode x.toNat hsmall (by rwa [Char.ofNat_toNat])
      exact absurd h hne
    · exact h
  · split at h
    · exact absurd h (by decide)
    · unfold mapByRows at h
      split at h
      · rename_i row hrow
        have hbig := hrows row (List.mem_of_find?_eq_some hrow)
        have hcovers := List.find?_some hrow
        simp only [CaseRow.covers, Bool.and_eq_true, decide_eq_true_eq] at hcovers
        -- A code that is no character would stand for the character zero.
        by_cases hvalid : ((x.toNat : Int) + row.shift).toNat.isValidChar
        · rw [Char.ofNat, dif_pos hvalid] at h
          have hten : ((x.toNat : Int) + row.shift).toNat = 10 := congrArg Char.toNat h
          omega
        · rw [Char.ofNat, dif_neg hvalid] at h
          exact absurd h (by decide)
      · exact h

/-- **A line feed is no letter of a name**, in whatever case. -/
theorem ne_lineFeed_of_sameLetter {x c : Char} (hc : isWord c = true)
    (h : sameLetter x c = true) : x ≠ '\n' := by
  rintro rfl
  have hfold : foldedChar '\n' = '\n' := by decide
  have hclasses : ∀ cls ∈ sharedUpperClasses, cls.contains '\n'.toNat = false := by decide
  rw [sameLetter, hfold, Bool.or_eq_true, beq_iff_eq, List.any_eq_true] at h
  rcases h with hsame | ⟨cls, hcls, hboth⟩
  · have hword : isWord '\n' = false := by decide
    rw [foldedChar_eq_lineFeed hsame.symm, hword] at hc
    cases hc
  · rw [hclasses cls hcls, Bool.false_and] at hboth
    cases hboth

end PlanAudit.Pattern
