import Mathlib.Data.List.Basic
import Mathlib.Data.List.TakeWhile
import PlanAudit.Text.Basic

/-!
# Words and blanks

No character is both white space and part of a name, so that a text of names and white space can be
taken apart in one way only.

## Main definitions

* `isQuotation`: quotation marks and grave accents
* `Word`, `Blanks`, `Gap`: words, white space, and white space between words, as they are written
* `afterName`: what stands behind the first word of a text

## Main results

* `isWord_eq_false_of_isBlank`: white space is not part of a name
* `takeWhile_append`, `dropWhile_append`: the longest run of characters at the start of a text
* `eq_of_word_gap`: a word and the white space behind it are read in one way only
* `dropEndWhile_append`: nothing is dropped in front of what has to stay
* `head_stripEnd`: what is stripped at its end starts as it did
* `infix_slice_iff`: a piece of a slice stands between the ends of the slice
* `infix_strip_iff`: a piece without white space survives when a text is stripped
-/

namespace PlanAudit.Text

/-! ## Properties of all characters of a text

They are decided by going through the text.  Where the characters are known to be finitely many, an
instance for properties of all characters there are could be found first, and would not end. -/

section Deciding

variable (p : Char → Prop) [DecidablePred p]

instance decidableForallChars (w : List Char) : Decidable (∀ c ∈ w, p c) := List.decidableBAll p w

instance decidableExistsChars (w : List Char) : Decidable (∃ c ∈ w, p c) := List.decidableBEx p w

instance decidableForallChar (c : Option Char) : Decidable (∀ x ∈ c, p x) :=
  Option.decidableForallMem c

end Deciding

/-! ## Classes of characters -/

theorem inRanges_eq_false {ranges others : List (Nat × Nat)}
    (h : ∀ r ∈ ranges, ∀ s ∈ others, r.2 < s.1 ∨ s.2 < r.1) {c : Char}
    (hc : inRanges others c = true) : inRanges ranges c = false := by
  obtain ⟨s, hs, hcs⟩ := List.any_eq_true.mp hc
  rw [Bool.and_eq_true, decide_eq_true_eq, decide_eq_true_eq] at hcs
  refine List.any_eq_false.mpr fun r hr hcr => ?_
  rw [Bool.and_eq_true, decide_eq_true_eq, decide_eq_true_eq] at hcr
  have := h r hr s hs
  omega

/-- **White space is not part of a name.** -/
theorem isWord_eq_false_of_isBlank {c : Char} (h : isBlank c = true) : isWord c = false := by
  unfold isBlank at h
  unfold isWord isAlphanumeric
  split at h
  · -- In ASCII white space stands at the space or before it, names hold what stands behind it.
    rename_i hsmall
    have hcode : c.toNat ≤ ' '.toNat := by
      simp only [isBlankAscii, Bool.or_eq_true, beq_iff_eq, Bool.and_eq_true,
        decide_eq_true_eq] at h
      rcases h with (rfl | ⟨-, h⟩) | ⟨-, h⟩
      · exact Nat.le_refl _
      · exact Nat.le_trans (show c.toNat ≤ '\r'.toNat from h) (by decide)
      · exact Nat.le_trans (show c.toNat ≤ '\x1f'.toNat from h) (by decide)
    have hnot : ∀ first : Char, ' '.toNat < first.toNat → ¬ first ≤ c :=
      fun first hfirst hle => absurd (Nat.le_trans (show first.toNat ≤ c.toNat from hle) hcode)
        (Nat.not_le_of_gt hfirst)
    have hline : c ≠ '_' := by
      rintro rfl
      exact absurd hcode (by decide)
    rw [if_pos hsmall]
    simp [isAlphanumericAscii, isDigitAscii, isUpperAscii, isLowerAscii,
      hnot '0' (by decide), hnot 'A' (by decide), hnot 'a' (by decide), hline]
  · rename_i hlarge
    have hline : c ≠ '_' := by
      rintro rfl
      exact hlarge (by decide)
    have hranges : ∀ r ∈ alphanumericRanges, ∀ s ∈ blankRanges, r.2 < s.1 ∨ s.2 < r.1 := by
      decide +kernel
    rw [if_neg hlarge, inRanges_eq_false hranges h]
    simpa using hline

theorem not_isWord_of_isBlank (c : Char) (h : isBlank c = true) : (!isWord c) = true := by
  rw [isWord_eq_false_of_isBlank h, Bool.not_false]

theorem isBlank_eq_false_of_isWord {c : Char} (h : isWord c = true) : isBlank c = false := by
  by_contra hblank
  rw [isWord_eq_false_of_isBlank (by simpa using hblank)] at h
  cases h

theorem isWord_of_isAlphanumericAscii {c : Char} (h : isAlphanumericAscii c = true) :
    isWord c = true := by
  have hsmall : c.toNat < 128 := by
    have hlt : ∀ last : Char, last.toNat < 128 → c ≤ last → c.toNat < 128 :=
      fun last hlast hle => Nat.lt_of_le_of_lt (show c.toNat ≤ last.toNat from hle) hlast
    simp only [isAlphanumericAscii, isDigitAscii, isUpperAscii, isLowerAscii, Bool.or_eq_true,
      Bool.and_eq_true, decide_eq_true_eq] at h
    rcases h with (⟨-, h⟩ | ⟨-, h⟩) | ⟨-, h⟩
    · exact hlt '9' (by decide) h
    · exact hlt 'Z' (by decide) h
    · exact hlt 'z' (by decide) h
  rw [isWord, isAlphanumeric, if_pos hsmall, h, Bool.true_or]

/-- A quotation mark or a grave accent. -/
def isQuotation (c : Char) : Bool := "'\"\x60".toList.contains c

/-- A quotation mark is neither white space nor part of a name. -/
theorem not_blank_of_isQuotation {c : Char} (h : isQuotation c = true) :
    isBlank c = false ∧ isWord c = false := by
  have hmarks : ∀ x ∈ "'\"\x60".toList, isBlank x = false ∧ isWord x = false := by decide
  exact hmarks c (List.contains_iff_mem.mp h)

/-! ## Runs of characters -/

section Runs

variable {p : Char → Bool} {w t : List Char}

theorem forall_head?_cons {P : Char → Prop} {x : Char} (h : P x) : ∀ c ∈ (x :: t).head?, P c :=
  fun _ hc => Option.some.inj hc ▸ h

theorem forall_head?_append {P : Char → Prop} (hw : ∀ c ∈ w, P c) (ht : ∀ c ∈ t.head?, P c) :
    ∀ c ∈ (w ++ t).head?, P c := by
  cases w with
  | nil => exact ht
  | cons x w => exact forall_head?_cons (hw x List.mem_cons_self)

theorem dropWhile_eq_self (h : ∀ c ∈ t.head?, p c = false) : t.dropWhile p = t := by
  cases t with
  | nil => rfl
  | cons c t => exact List.dropWhile_cons_of_neg (by simp [h c rfl])

/-- A character of a class is none of those outside of it. -/
theorem contains_eq_false {c : Char} (h : ∀ x ∈ w, p x = false) (hc : p c = true) :
    w.contains c = false := by
  by_contra hmem
  rw [h c (List.contains_iff_mem.mp (Bool.not_eq_false _ ▸ hmem))] at hc
  cases hc

/-- The longest run at the start of a text stands in front of another character. -/
theorem takeWhile_append (hw : ∀ c ∈ w, p c = true) (ht : ∀ c ∈ t.head?, p c = false) :
    (w ++ t).takeWhile p = w := by
  have hstop : t.takeWhile p = [] := by
    cases t with
    | nil => rfl
    | cons c t => exact List.takeWhile_cons_of_neg (by simp [ht c rfl])
  rw [List.takeWhile_append_of_pos hw, hstop, List.append_nil]

/-- What is left behind the longest run. -/
theorem dropWhile_append (hw : ∀ c ∈ w, p c = true) (ht : ∀ c ∈ t.head?, p c = false) :
    (w ++ t).dropWhile p = t := by
  rw [List.dropWhile_append_of_pos hw, dropWhile_eq_self ht]

/-- The first character of another class splits a text in one way only. -/
theorem eq_of_append_cons {x y : Char} {u v r s : List Char} (hu : ∀ c ∈ u, p c = true)
    (hv : ∀ c ∈ v, p c = true) (hx : p x = false) (hy : p y = false)
    (h : u ++ x :: r = v ++ y :: s) : u = v ∧ x = y ∧ r = s := by
  have htake := congrArg (List.takeWhile p) h
  rw [takeWhile_append hu (forall_head?_cons hx), takeWhile_append hv (forall_head?_cons hy)]
    at htake
  subst htake
  exact ⟨rfl, List.cons.inj (List.append_cancel_left h)⟩

/-- The first occurrence of a character splits a text in one way only. -/
theorem eq_of_append_cons_eq {x : Char} {u v r s : List Char} (hu : x ∉ u) (hv : x ∉ v)
    (h : u ++ x :: r = v ++ x :: s) : u = v ∧ r = s := by
  have hfree : ∀ {w : List Char}, x ∉ w → ∀ c ∈ w, (c != x) = true := by
    rintro w hw c hc
    exact bne_iff_ne.mpr fun heq => hw (heq ▸ hc)
  have hstop : (x != x) = false := by simp
  obtain ⟨hfront, -, hrest⟩ := eq_of_append_cons (hfree hu) (hfree hv) hstop hstop h
  exact ⟨hfront, hrest⟩

/-- What stands in front of the first occurrence of a character starts the text as well. -/
theorem exists_eq_append_of_not_mem {x : Char} {u v r s : List Char} (hu : x ∉ u)
    (h : u ++ r = v ++ x :: s) : ∃ z, v = u ++ z := by
  rcases List.append_eq_append_iff.mp h with ⟨z, hv, -⟩ | ⟨z, hz, hx⟩
  · exact ⟨z, hv⟩
  · cases z with
    | nil => exact ⟨[], by rw [hz, List.append_nil, List.append_nil]⟩
    | cons y z =>
      obtain ⟨rfl, -⟩ := List.cons.inj hx
      exact absurd (by simp [hz]) hu

/-- Nothing is dropped in front of what ends in another character. -/
theorem dropEndWhile_append (h : ∀ c ∈ w.getLast?, p c = false) :
    dropEndWhile p (w ++ t) = w ++ dropEndWhile p t := by
  have hkept : w.reverse.dropWhile p = w.reverse := by
    rw [List.getLast?_eq_head?_reverse] at h
    exact dropWhile_eq_self h
  unfold dropEndWhile
  rw [List.reverse_append, List.dropWhile_append]
  split
  · rename_i hnil
    rw [hkept, List.isEmpty_iff.mp hnil]
    simp
  · simp

theorem dropEndWhile_eq_nil (hw : ∀ c ∈ w, p c = true) : dropEndWhile p w = [] := by
  have hnone := dropWhile_append (p := p) (w := w.reverse) (t := [])
    (fun c hc => hw c (List.mem_reverse.mp hc)) fun c hc => nomatch hc
  rw [List.append_nil] at hnone
  rw [dropEndWhile, hnone]
  rfl

/-- The longest run at the end of a text is its own. -/
theorem eq_of_append_eq_append {u v x : List Char} (hw : ∀ c ∈ w, p c = true)
    (hx : ∀ c ∈ x, p c = true) (hu : ∀ c ∈ u.getLast?, p c = false)
    (hv : ∀ c ∈ v.getLast?, p c = false) (h : u ++ w = v ++ x) : u = v ∧ w = x := by
  have hrun : ∀ {u w : List Char}, (∀ c ∈ w, p c = true) → (∀ c ∈ u.getLast?, p c = false) →
      (u ++ w).reverse.takeWhile p = w.reverse := by
    intro u w hw hu
    rw [List.getLast?_eq_head?_reverse] at hu
    rw [List.reverse_append]
    exact takeWhile_append (fun c hc => hw c (List.mem_reverse.mp hc)) hu
  have htake : (u ++ w).reverse.takeWhile p = (v ++ x).reverse.takeWhile p := by rw [h]
  rw [hrun hw hu, hrun hx hv] at htake
  obtain rfl : w = x := List.reverse_injective htake
  exact ⟨List.append_cancel_right h, rfl⟩

theorem prefix_stripEnd (t : List Char) : stripEnd t <+: t := by
  unfold stripEnd dropEndWhile
  rw [← List.reverse_suffix, List.reverse_reverse]
  exact List.dropWhile_suffix isBlank

theorem head_stripEnd {P : Char → Prop} (h : ∀ c ∈ t.head?, P c) :
    ∀ c ∈ (stripEnd t).head?, P c := by
  obtain ⟨rest, hrest⟩ := prefix_stripEnd t
  cases hstrip : stripEnd t with
  | nil => exact fun c hc => nomatch hc
  | cons x kept =>
    rw [← hrest, hstrip] at h
    exact forall_head?_cons (h x rfl)

end Runs

/-! ## Words and white space as they are written -/

/-- A word: a name, a type or a keyword. -/
@[ext]
structure Word where
  /-- The characters. -/
  chars : List Char
  /-- There are some. -/
  ne_nil : chars ≠ []
  /-- They can be part of a name. -/
  word : ∀ c ∈ chars, isWord c = true

/-- White space. -/
@[ext]
structure Blanks where
  /-- The characters. -/
  chars : List Char
  /-- They are white space. -/
  blank : ∀ c ∈ chars, isBlank c = true

/-- White space that tells two words apart. -/
@[ext]
structure Gap extends Blanks where
  /-- There is some. -/
  ne_nil : chars ≠ []

theorem blank_nil : ∀ c ∈ ([] : List Char), isBlank c = true := nofun

theorem blank_space : ∀ c ∈ [' '], isBlank c = true := by decide

theorem space_ne_nil : [' '] ≠ [] := by decide

/-- No white space. -/
def Blanks.none : Blanks := ⟨[], blank_nil⟩

/-- A single space. -/
def Blanks.space : Blanks := ⟨[' '], blank_space⟩

/-- A single space. -/
def Gap.space : Gap := ⟨.space, space_ne_nil⟩

/-- White space and what follows it do not start with a part of a name. -/
theorem Blanks.head_append (b : Blanks) {t : List Char} (ht : ∀ c ∈ t.head?, isWord c = false) :
    ∀ c ∈ (b.chars ++ t).head?, isWord c = false :=
  forall_head?_append (fun c hc => isWord_eq_false_of_isBlank (b.blank c hc)) ht

namespace Word

variable (n : Word)

/-- The word as a string. -/
def string : String := String.ofList n.chars

/-- The word that a string is. -/
def ofString (s : String) (h : s.toList ≠ [] ∧ ∀ c ∈ s.toList, isWord c = true) : Word :=
  ⟨s.toList, h.1, h.2⟩

theorem toList_string : n.string.toList = n.chars := String.toList_ofList

theorem string_injective {n m : Word} (h : n.string = m.string) : n = m :=
  Word.ext (String.ofList_injective h)

theorem not_mem {x : Char} (hx : isWord x = false) : x ∉ n.chars := by
  intro h
  rw [n.word x h] at hx
  cases hx

theorem exists_cons : ∃ x t, n.chars = x :: t ∧ isWord x = true := by
  obtain ⟨x, t, h⟩ := List.exists_cons_of_ne_nil n.ne_nil
  exact ⟨x, t, h, n.word x (h ▸ List.mem_cons_self)⟩

theorem head_word (t : List Char) : ∀ c ∈ (n.chars ++ t).head?, isWord c = true := by
  obtain ⟨x, rest, hx, hword⟩ := n.exists_cons
  rw [hx]
  exact forall_head?_cons hword

/-- A word begins with no white space. -/
theorem head_append (t : List Char) : ∀ c ∈ (n.chars ++ t).head?, isBlank c = false :=
  fun c hc => isBlank_eq_false_of_isWord (n.head_word t c hc)

theorem head_chars : ∀ c ∈ n.chars.head?, isBlank c = false :=
  fun c hc => isBlank_eq_false_of_isWord (n.word c (List.mem_of_mem_head? hc))

theorem head_ne {y : Char} (hy : isWord y = false) (t : List Char) :
    ∀ c ∈ (n.chars ++ t).head?, (c == y) = false := by
  intro c hc
  refine beq_eq_false_iff_ne.mpr ?_
  rintro rfl
  rw [n.head_word t c hc] at hy
  cases hy

theorem getLast_append (v : List Char) : ∀ c ∈ (v ++ n.chars).getLast?, isWord c = true := by
  rw [List.getLast?_append_of_ne_nil _ n.ne_nil]
  exact fun c hc => n.word c (List.mem_of_getLast? hc)

end Word

namespace Gap

variable (g : Gap)

theorem exists_cons : ∃ x t, g.chars = x :: t ∧ isBlank x = true := by
  obtain ⟨x, t, h⟩ := List.exists_cons_of_ne_nil g.ne_nil
  exact ⟨x, t, h, g.blank x (h ▸ List.mem_cons_self)⟩

theorem head_blank (t : List Char) : ∀ c ∈ (g.chars ++ t).head?, isBlank c = true := by
  obtain ⟨x, rest, hx, hblank⟩ := g.exists_cons
  rw [hx]
  exact forall_head?_cons hblank

/-- A gap begins with no character of a name. -/
theorem head_append (t : List Char) : ∀ c ∈ (g.chars ++ t).head?, isWord c = false :=
  fun c hc => isWord_eq_false_of_isBlank (g.head_blank t c hc)

end Gap

/-- There is no gap in a word. -/
theorem Word.ne_of_gap (n : Word) (g : Gap) {v t : List Char} :
    n.chars ≠ v ++ (g.chars ++ t) := by
  intro h
  obtain ⟨x, s, hx, hblank⟩ := g.exists_cons
  refine n.not_mem (isWord_eq_false_of_isBlank hblank) ?_
  rw [h, hx]
  simp

/-- A word and the white space behind it are read in one way only. -/
theorem eq_of_word_gap {n m : Word} {g k : Gap} {r s : List Char}
    (hr : ∀ c ∈ r.head?, isBlank c = false) (hs : ∀ c ∈ s.head?, isBlank c = false)
    (h : n.chars ++ (g.chars ++ r) = m.chars ++ (k.chars ++ s)) :
    n.chars = m.chars ∧ g.chars = k.chars ∧ r = s := by
  have hword := congrArg (List.takeWhile isWord) h
  rw [takeWhile_append n.word (g.head_append r), takeWhile_append m.word (k.head_append s)]
    at hword
  rw [hword] at h
  have hrest := List.append_cancel_left h
  have hgap := congrArg (List.takeWhile isBlank) hrest
  rw [takeWhile_append g.blank hr, takeWhile_append k.blank hs] at hgap
  rw [hgap] at hrest
  exact ⟨hword, hgap, List.append_cancel_left hrest⟩

/-! ### Behind a word -/

section Behind

variable {w t : List Char}

/-- What stands behind the name at the start of a text and the white space after it. -/
def afterName (text : List Char) : List Char := stripStart (text.dropWhile isWord)

theorem afterName_append (hw : ∀ c ∈ w, isWord c = true) (ht : ∀ c ∈ t.head?, isWord c = false) :
    afterName (w ++ t) = stripStart t := by
  rw [afterName, dropWhile_append hw ht]

theorem stripStart_append (hw : ∀ c ∈ w, isBlank c = true) : stripStart (w ++ t) = stripStart t :=
  List.dropWhile_append_of_pos hw

theorem stripStart_eq_self (ht : ∀ c ∈ t.head?, isBlank c = false) : stripStart t = t :=
  dropWhile_eq_self ht

end Behind

/-! ## Stripped texts -/

section Strip

variable {piece text : List Char}

/-- What is stripped at the end is white space. -/
theorem exists_stripEnd_append (text : List Char) :
    ∃ stripped, text = stripEnd text ++ stripped ∧ ∀ c ∈ stripped, isBlank c = true := by
  refine ⟨(text.reverse.takeWhile isBlank).reverse, ?_, fun c hc => ?_⟩
  · rw [stripEnd, dropEndWhile, ← List.reverse_append, List.takeWhile_append_dropWhile,
      List.reverse_reverse]
  · exact List.mem_takeWhile_imp (List.mem_reverse.mp hc)

theorem infix_strip (t : List Char) : strip t <:+: t :=
  (prefix_stripEnd _).isInfix.trans (List.dropWhile_suffix isBlank).isInfix

/-- **White space at both ends** is stripped. -/
theorem strip_between {v w t : List Char} (hv : ∀ c ∈ v, isBlank c = true)
    (ht : ∀ c ∈ t, isBlank c = true) (hne : w ≠ []) (hhead : ∀ c ∈ w.head?, isBlank c = false)
    (hlast : ∀ c ∈ w.getLast?, isBlank c = false) : strip (v ++ (w ++ t)) = w := by
  obtain ⟨x, w, rfl⟩ := List.exists_cons_of_ne_nil hne
  have hstart : stripStart (v ++ (x :: w ++ t)) = x :: w ++ t :=
    dropWhile_append hv (forall_head?_cons (hhead x rfl))
  rw [strip, hstart, stripEnd, dropEndWhile_append hlast, dropEndWhile_eq_nil ht, List.append_nil]

/-- A piece occurs in a text if it stands somewhere in it. -/
theorem contains_iff_infix : contains piece text = true ↔ piece <:+: text := by
  rw [contains]
  induction text with
  | nil =>
    rw [find?, List.infix_nil]
    cases piece <;> simp
  | cons c rest ih =>
    rw [find?, List.infix_cons_iff, ← ih, ← List.isPrefixOf_iff_prefix]
    unfold beginsWith
    split <;> simp [*]

/-- A piece occurs in a slice if it stands in the text between the ends of the slice. -/
theorem infix_slice_iff {start stop : Nat} (hle : start ≤ stop) (hstart : start ≤ text.length) :
    piece <:+: slice text start stop ↔
      ∃ u v, text = u ++ (piece ++ v) ∧ start ≤ u.length ∧ u.length + piece.length ≤ stop := by
  constructor
  · rintro ⟨before, after, hslice⟩
    have hfront : text.take stop = text.take start ++ slice text start stop := by
      rw [← List.take_append_drop start (text.take stop), List.take_take, Nat.min_eq_left hle]
      rfl
    refine ⟨text.take start ++ before, after ++ text.drop stop, ?_, ?_, ?_⟩
    · conv_lhs => rw [← List.take_append_drop stop text, hfront, ← hslice]
      simp only [List.append_assoc]
    · rw [List.length_append, List.length_take, Nat.min_eq_left hstart]
      exact Nat.le_add_right _ _
    · have hlength := length_slice_le text start stop
      rw [← hslice, List.length_append, List.length_append] at hlength
      rw [List.length_append, List.length_take, Nat.min_eq_left hstart]
      omega
  · rintro ⟨u, v, rfl, hu, hstop⟩
    obtain ⟨rest, rfl⟩ := Nat.exists_eq_add_of_le hstop
    have htake : (u ++ (piece ++ v)).take (u.length + piece.length + rest) =
        u ++ (piece ++ v.take rest) := by
      rw [Nat.add_assoc, List.take_length_add_append, List.take_length_add_append]
    rw [slice, htake, List.drop_append_of_le_length hu]
    exact ⟨u.drop start, v.take rest, List.append_assoc _ _ _⟩

theorem prefix_slice_iff {piece text : List Char} {start stop : Nat} (hne : piece ≠ []) :
    piece <+: slice text start stop ↔
      piece <+: text.drop start ∧ start + piece.length ≤ stop := by
  have hpos := List.length_pos_of_ne_nil hne
  rw [slice, List.drop_take, List.prefix_take_iff]
  refine and_congr_right fun _ => ?_
  omega

/-- The slice between the ends of a piece is the piece. -/
theorem slice_append_append (u v w : List Char) :
    slice (u ++ (v ++ w)) u.length (u.length + v.length) = v := by
  simp [slice, List.take_append]

/-- A slice starts what stands behind its start. -/
theorem slice_prefix_drop (text : List Char) (start stop : Nat) :
    slice text start stop <+: text.drop start := by
  rw [slice, List.drop_take]
  exact List.take_prefix _ _

/-- A slice that starts later is the end of one that starts earlier. -/
theorem slice_suffix {text : List Char} {start later stop : Nat} (h : start ≤ later) :
    slice text later stop <:+ slice text start stop := by
  obtain ⟨n, rfl⟩ := Nat.exists_eq_add_of_le h
  rw [slice, ← List.drop_drop]
  exact List.drop_suffix n _

/-- A piece without white space does not reach into white space in front of a text. -/
theorem infix_blank_append_iff {w t : List Char} (hne : piece ≠ [])
    (hpiece : ∀ c ∈ piece, isBlank c = false) (hw : ∀ c ∈ w, isBlank c = true) :
    piece <:+: w ++ t ↔ piece <:+: t := by
  obtain ⟨x, piece, rfl⟩ := List.exists_cons_of_ne_nil hne
  induction w with
  | nil => rfl
  | cons y w ih =>
    obtain ⟨hy, hw⟩ := List.forall_mem_cons.mp hw
    rw [List.cons_append, List.infix_cons_iff, ih hw, or_iff_right]
    intro hstarts
    obtain ⟨rfl, -⟩ := List.cons_prefix_cons.mp hstarts
    exact absurd hy (by simp [hpiece])

/-- A piece without white space stands in a text exactly if it stands there without the white space
at both ends. -/
theorem infix_strip_iff (hne : piece ≠ []) (hpiece : ∀ c ∈ piece, isBlank c = false) :
    piece <:+: strip text ↔ piece <:+: text := by
  refine ⟨fun h => h.trans (infix_strip text), fun h => ?_⟩
  have hstart : piece <:+: stripStart text := by
    rw [← List.takeWhile_append_dropWhile (p := isBlank) (l := text)] at h
    exact (infix_blank_append_iff hne hpiece fun c hc => List.mem_takeWhile_imp hc).mp h
  obtain ⟨stripped, hsplit, hblank⟩ := exists_stripEnd_append (stripStart text)
  rw [hsplit, ← List.reverse_infix, List.reverse_append] at hstart
  rw [strip, ← List.reverse_infix]
  exact (infix_blank_append_iff (by simpa using hne) (by simpa using hpiece)
    (by simpa using hblank)).mp hstart
end Strip

end PlanAudit.Text
