import PlanAudit.Proofs.Types.Bodies

/-!
# What a declaration is read as

The patterns of the kinds and the pattern of other aliases are tried at the start of a declaration
that is told from what follows it.  Each of them finds what the declaration says, or nothing, and
what it finds does not depend on the text behind the declaration.

## Main definitions

* `Yields p w r`: the pattern `p` finds `r` at the start of `w`, whatever follows

## Main results

* `exists_yields_block`: the pattern of a kind finds the name and the body of a declaration
* `exists_yields_otherAlias`: the pattern of other aliases finds the name of an alias
-/

namespace PlanAudit.Types

open Text Pattern

/-- The name and the body that a match has captured. -/
def found (m : Match) : String × List Char := (m.name 1, m.group 2)

/-- At the start of a line the pattern finds `r` at the start of `w`, whatever follows. -/
def Yields (p : Pattern) (w : List Char) : Option (String × List Char) → Prop
  | none => ∀ before offset t, p.matchHere before offset (w ++ t) = none
  | some r => ∃ v v', w = v ++ v' ∧ v ≠ [] ∧ ∀ before offset t, StartsLine before →
      ∃ m, p.matchHere before offset (w ++ t) = some m ∧ m.stop = offset + v.length ∧ found m = r

section Item

variable {before : Option Char} {offset : Nat} {t : List Char}

theorem Head.front_ne_nil (h : Head) : h.front ≠ [] := by
  simp [Head.front, h.name.ne_nil]

theorem head_append_of_apart (h : Head) {x : Char} (hx : isWord x = false) (r : List Char) :
    ∀ c ∈ (h.after ++ x :: r).head?, isWord c = false := by
  cases hafter : h.after with
  | nil => exact forall_head?_cons hx
  | cons y s =>
    have hapart := h.apart
    rw [hafter] at hapart
    exact forall_head?_cons (hapart y rfl)

/-- **A declaration with a body in braces**, in a form that is read, is found with its body. -/
theorem yields_braced {b : Braced} (hclosed : (Item.braced b).Closed)
    (hreadable : (Item.braced b).Readable) :
    Yields (blockPattern b.head.kind) (Item.braced b).text
      (some ((Item.braced b).name, b.body)) := by
  obtain ⟨hfeed, hbody⟩ := hclosed.ends
  refine ⟨b.head.front ++ (b.head.after ++ '{' :: (b.body ++ ['}'])), b.tail, ?_, ?_, ?_⟩
  · simp [Item.text, Item.rest, Item.head]
  · simp [b.head.front_ne_nil]
  intro before offset t hstart
  have htext : (Item.braced b).text ++ t =
      b.head.front ++ (b.head.after ++ '{' :: (b.body ++ '}' :: (b.tail ++ t))) := by
    simp [Item.text, Item.rest, Item.head]
  rw [matchHere_blockPattern, htext]
  -- The head is read, then what stands in front of the brace, then the body.
  refine ⟨_, (Head.run_headed (startsWith_inFront _) (head_append_of_apart _ (by decide) _) hstart
    rfl hreadable.1).trans (run_inFront hclosed.head rfl hreadable.2
      (run_bracedBody hbody hfeed rfl rfl)), ?_, ?_⟩
  · simp [behindBody, Head.behindName, Head.front, Cursor.record, Item.head, Nat.add_assoc]
  · exact Prod.ext (congrArg String.ofList Capture.text_eq) Capture.text_eq

theorem head_rest (i : Item) (t : List Char) : ∀ c ∈ (i.rest ++ t).head?, isWord c = false := by
  cases i with
  | braced b =>
    rw [Item.rest, List.append_assoc, List.cons_append]
    exact head_append_of_apart b.head (by decide) _
  | equated e =>
    rw [Item.rest, List.append_assoc, List.cons_append]
    exact head_append_of_apart e.head (by decide) _

/-- Nothing is found where nothing is found behind the name. -/
theorem yields_none {i : Item} {p q : Pattern} {k : DeclarationKind}
    (hp : p.matchHere = (headed k q).matchHere) (hq : StartsWith (!isWord ·) q)
    (hnone : k = i.head.kind → ∀ (c : Cursor) (next : Cursor → Option Match) (t : List Char),
      c.rest = i.rest ++ t → q.run c next = none) : Yields p i.text none := by
  intro before offset t
  rw [hp, Item.text, List.append_assoc]
  exact Head.run_headed_eq_none_of_behindName hq (head_rest i t) rfl
    fun hkind => hnone hkind _ _ t rfl

/-- **What the pattern of a kind finds in a declaration**: its name with its own body, if it has a
body, is of the kind and has a form that is read. -/
theorem exists_yields_block (k : DeclarationKind) {i : Item} (hi : i.Closed) :
    ∃ r, Yields (blockPattern k) i.text r ∧
      ∀ x, r = some x ↔ i.IsBraced ∧ i.head.kind = k ∧ i.Readable ∧ x = (i.name, i.body) := by
  by_cases h : i.IsBraced ∧ i.head.kind = k ∧ i.Readable
  · obtain ⟨hbraced, rfl, hreadable⟩ := h
    cases i with
    | braced b =>
      refine ⟨_, yields_braced hi hreadable, fun x => ?_⟩
      rw [Option.some.injEq]
      exact ⟨fun hx => ⟨trivial, rfl, hreadable, hx.symm⟩, fun hx => hx.2.2.2.symm⟩
    | equated e => exact hbraced.elim
  · have hnone : ∀ x, (none : Option (String × List Char)) = some x ↔
        i.IsBraced ∧ i.head.kind = k ∧ i.Readable ∧ x = (i.name, i.body) := fun x =>
      ⟨(nomatch ·), fun hx => absurd ⟨hx.1, hx.2.1, hx.2.2.1⟩ h⟩
    refine ⟨none, ?_, hnone⟩
    by_cases hin : k = i.head.kind ∧ i.head.Introduces
    · obtain ⟨rfl, hin⟩ := hin
      refine yields_none (matchHere_blockPattern _) (startsWith_inFront _)
        fun _ c next t hrest => ?_
      cases i with
      | braced b =>
        rw [Item.rest, List.append_assoc, List.cons_append] at hrest
        refine run_inFront_eq_none hi.head b.head.angle hrest fun hform => ?_
        exact h ⟨trivial, rfl, hin, hform⟩
      | equated e =>
        rw [Item.rest, List.append_assoc, List.cons_append] at hrest
        have hkind : (Item.equated e).head.kind = .alias := e.isAlias
        rw [hkind]
        exact run_inFront_eq_none_of_equals hi.head e.head.angle hrest
          (startsNoBrace_append hi.ends)
    · -- The words in front of the name are those of another kind, or of none.
      intro before offset t
      rw [matchHere_blockPattern, Item.text, List.append_assoc]
      exact Head.run_headed_eq_none rfl hin

end Item

/-! ## Other aliases -/

section Alias

variable {i : Item} {u s t : List Char}

/-- The equals sign behind a name stands in its own declaration. -/
theorem exists_rest_eq (hi : i.Closed) (hu : BeforeEquals u) (h : i.rest ++ t = u ++ '=' :: s) :
    ∃ y s', i.rest = u ++ '=' :: y :: s' ∧ s = y :: (s' ++ t) := by
  cases i with
  | braced b =>
    have hrest : b.head.after ++ '{' :: (b.body ++ '}' :: (b.tail ++ t)) = u ++ '=' :: s := by
      simpa [Item.rest] using h
    rcases hu.confined (by decide) (by decide) b.head.angle hrest with ⟨z, hz, rfl⟩ | ⟨hsign, -⟩
    · cases z with
      | nil => exact ⟨'{', b.body ++ '}' :: b.tail, by simp [Item.rest, hz], by simp⟩
      | cons y z =>
        exact ⟨y, z ++ '{' :: (b.body ++ '}' :: b.tail), by simp [Item.rest, hz], by simp⟩
    · exact absurd hsign (by decide)
  | equated e =>
    have hrest : e.head.after ++ '=' :: (e.value ++ t) = u ++ '=' :: s := by
      simpa [Item.rest] using h
    -- Behind the sign stands at least the end of the line.
    have hne : e.value ≠ [] := by
      intro hnil
      have hended := e.ended
      rw [hnil] at hended
      cases hended
    obtain ⟨x, r, hvalue⟩ := List.exists_cons_of_ne_nil hne
    rcases hu.confined (by decide) (by decide) e.head.angle hrest with ⟨z, hz, rfl⟩ | ⟨-, hz, rfl⟩
    · cases z with
      | nil => exact ⟨'=', e.value, by simp [Item.rest, hz], by simp⟩
      | cons y z => exact ⟨y, z ++ '=' :: e.value, by simp [Item.rest, hz], by simp⟩
    · exact ⟨x, r, by simp [Item.rest, hz, hvalue], by simp [hvalue]⟩

/-- An equals sign behind the name can be read, and no brace stands behind it. -/
def Item.HasSign (i : Item) : Prop :=
  ∃ u y s, i.rest = u ++ '=' :: y :: s ∧ BeforeEquals u ∧ (y != '{') = true

theorem hasSign_of_readable (hi : i.Closed) (hequated : ¬ i.IsBraced) (h : i.Readable) :
    i.HasSign := by
  cases i with
  | braced b => exact absurd trivial hequated
  | equated e =>
    obtain ⟨gap, x, r, hvalue, hgap, -, hbrace⟩ := startsNoBrace_iff.mp hi.ends
    cases gap with
    | nil => exact ⟨_, x, r, by simp [Item.rest, hvalue], h.2, bne_iff_ne.mpr hbrace⟩
    | cons y gap =>
      refine ⟨_, y, gap ++ x :: r, by simp [Item.rest, hvalue], h.2, bne_iff_ne.mpr fun heq => ?_⟩
      exact absurd (hgap y List.mem_cons_self) (by rw [heq]; decide)

theorem yields_otherAlias (hkind : i.head.kind = .alias) (hin : i.head.Introduces)
    (hsign : i.HasSign) : Yields otherAlias i.text (some (i.name, [])) := by
  obtain ⟨u, y, s, hrest, hu, hy⟩ := hsign
  refine ⟨i.head.front ++ (u ++ ['=', y]), s, by simp [Item.text, hrest], by simp, ?_⟩
  intro before offset t hstart
  have hrest' : i.rest ++ t = u ++ '=' :: (y :: (s ++ t)) := by simp [hrest]
  have hnext : (one (· != '{')).Takes [y] (s ++ t) := takes_one (x := y) hy
  rw [matchHere_otherAlias, Item.text, List.append_assoc, ← hkind]
  refine ⟨_, (Head.run_headed (startsWith_equation _) (head_rest i t) hstart rfl hin).trans
    ((run_equation hu hrest').trans (hnext _ _ _ _ rfl rfl)), ?_, ?_⟩
  · simp [Head.behindName, Head.front, Cursor.record, Nat.add_assoc]
  · exact Prod.ext (congrArg String.ofList Capture.text_eq) rfl

theorem yields_none_otherAlias (hi : i.Closed) (hsign : ¬ i.HasSign) :
    Yields otherAlias i.text none := by
  refine yields_none matchHere_otherAlias (startsWith_equation _) fun _ c next t hrest => ?_
  refine run_eq_none (p := equation) fun d hd => ?_
  obtain ⟨u, hu, hread, -⟩ := exists_of_mem_equation hd
  rw [hrest] at hread
  obtain ⟨y, s, hrest', hs⟩ := exists_rest_eq hi hu hread
  refine run_eq_none_of_startsWith startsWith_one fun x hx => ?_
  obtain rfl : x = y := by simpa [hs] using hx.symm
  by_contra hbrace
  exact hsign ⟨u, x, s, hrest', hu, by simpa using hbrace⟩

/-- **What the pattern of other aliases finds in a declaration** is the name of an alias. -/
theorem exists_yields_otherAlias (hi : i.Closed) :
    ∃ r, Yields otherAlias i.text r ∧ (∀ x, r = some x → i.head.kind = .alias ∧ x.1 = i.name) ∧
      (¬ i.IsBraced → i.Readable → r.isSome) := by
  by_cases hin : .alias = i.head.kind ∧ i.head.Introduces
  · by_cases hsign : i.HasSign
    · refine ⟨some (i.name, []), yields_otherAlias hin.1.symm hin.2 hsign, fun x hx => ?_,
        fun _ _ => rfl⟩
      rw [← Option.some.inj hx]
      exact ⟨hin.1.symm, rfl⟩
    · exact ⟨none, yields_none_otherAlias hi hsign, fun x => (nomatch ·),
        fun hequated h => absurd (hasSign_of_readable hi hequated h) hsign⟩
  · refine ⟨none, fun before offset t => ?_, fun x => (nomatch ·), fun hequated h => ?_⟩
    · rw [matchHere_otherAlias, Item.text, List.append_assoc]
      exact Head.run_headed_eq_none rfl hin
    · cases i with
      | braced b => exact absurd trivial hequated
      | equated e => exact absurd ⟨e.isAlias.symm, h.1⟩ hin

end Alias

end PlanAudit.Types
