import PlanAudit.Proofs.Pattern.Leftmost

/-!
# What a pattern records

A capture records the word that its part of the pattern reads.  If every word that is recorded under
an index satisfies a predicate, so does what a match has under that index, if it has anything there.

## Main definitions

* `Pattern.RecordsOnly index P p`: what the pattern `p` records under `index` satisfies `P`

## Main results

* `forall_captures_of_mem_outcomes`: what an outcome has recorded satisfies `P`
* `group_of_mem_findAll`, `group_of_search`: so does what a match has recorded
* `group_infix_of_matchHere`: what a match has recorded stands in its text
-/

namespace PlanAudit.Pattern

/-! ## Captures of an outcome -/

/-- What the pattern records under the index satisfies `P`. -/
def RecordsOnly (index : Nat) (P : List Char → Prop) : Pattern → Prop
  | empty => True
  | one _ => True
  | seq first second => RecordsOnly index P first ∧ RecordsOnly index P second
  | alt first second => RecordsOnly index P first ∧ RecordsOnly index P second
  | loop _ _ _ body => RecordsOnly index P body
  | capture i body => RecordsOnly index P body ∧
      (i = index → ∀ c d w, d ∈ body.outcomes c → c.Reads w d → P w)
  | here _ => True

section Outcomes

variable {index : Nat} {P : List Char → Prop}

/-- What the cursor has recorded under the index satisfies `P`. -/
def Recorded (index : Nat) (P : List Char → Prop) (captures : List Capture) : Prop :=
  ∀ k ∈ captures, k.index = index → P k.text

/-- **What an outcome has recorded satisfies the predicate**, if what was recorded before does. -/
theorem forall_captures_of_mem_outcomes {p : Pattern} (h : p.RecordsOnly index P) :
    ∀ c, ∀ d ∈ p.outcomes c, Recorded index P c.captures → Recorded index P d.captures := by
  induction p with
  | empty =>
    intro c d hd hc
    rwa [List.mem_singleton.mp hd]
  | one accepts =>
    intro c d hd hc
    obtain ⟨x, xs, -, -, rfl⟩ := mem_outcomes_one.mp hd
    exact hc
  | seq first second ih₁ ih₂ =>
    intro c d hd hc
    obtain ⟨e, he, hde⟩ := mem_outcomes_append.mp hd
    exact ih₂ h.2 e d hde (ih₁ h.1 c e he hc)
  | alt first second ih₁ ih₂ =>
    intro c d hd hc
    exact (mem_outcomes_alt.mp hd).elim (fun hd => ih₁ h.1 c d hd hc) fun hd => ih₂ h.2 c d hd hc
  | loop greedy least most body ih =>
    intro c
    refine rel_of_mem_loopOutcomes
      (R := fun c d => Recorded index P c.captures → Recorded index P d.captures)
      (fun _ => id) (fun hfirst hsecond => hsecond ∘ hfirst) (ih h) greedy _ least most c
  | capture i body ih =>
    intro c d hd hc
    obtain ⟨e, he, rfl⟩ := mem_outcomes_capture.mp hd
    intro k hk hindex
    rcases List.mem_cons.mp hk with rfl | hk
    · -- The text of the new capture is the word that its part of the pattern has read.
      obtain ⟨w, hw, -⟩ := exists_reads (readsOnly_true body) c e he
      have htext : (Capture.mk i c.offset e.offset c.rest).text = w := hw.take_eq
      rw [htext]
      exact h.2 hindex c e w he hw
    · exact ih h.1 c e he hc k hk hindex
  | here holds =>
    intro c d hd hc
    obtain ⟨-, rfl⟩ := mem_outcomes_here.mp hd
    exact hc

end Outcomes

/-! ## Captures of a match -/

section Matches

variable {index : Nat} {P : List Char → Prop} {p : Pattern} {m : Match}

theorem group_of_matchHere (h : p.RecordsOnly index P) {before : Option Char} {offset : Nat}
    {rest : List Char} (hm : p.matchHere before offset rest = some m) :
    m.group index = [] ∨ P (m.group index) := by
  obtain ⟨d, hd, rfl⟩ := exists_outcome_of_matchHere hm
  have hrecorded := forall_captures_of_mem_outcomes h _ d hd (fun _ hk => nomatch hk)
  unfold Match.group
  split
  · rename_i k hk
    exact Or.inr (hrecorded k (List.mem_of_find?_eq_some hk) (by simpa using List.find?_some hk))
  · exact Or.inl rfl

/-- What a match of a search has recorded satisfies the predicate. -/
theorem group_of_mem_findAll (h : p.RecordsOnly index P) {text : List Char}
    (hm : m ∈ p.findAll text) : m.group index = [] ∨ P (m.group index) := by
  obtain ⟨u, t, -, hm⟩ := exists_position_of_mem_findAll hm
  exact group_of_matchHere h hm

/-- What the leftmost match has recorded satisfies the predicate. -/
theorem group_of_search (h : p.RecordsOnly index P) {text : List Char}
    (hm : p.search text = some m) : m.group index = [] ∨ P (m.group index) := by
  obtain ⟨⟨u, t, -, hm⟩, -⟩ := search_eq_some_iff.mp hm
  exact group_of_matchHere h hm

end Matches

/-! ## Where captures stand -/

section Infix

variable {p : Pattern} {m : Match}

/-- Every capture stands in the text behind the cursor, or was made before. -/
theorem mem_or_suffix_of_mem_outcomes {p : Pattern} : ∀ c, ∀ d ∈ p.outcomes c,
    ∀ k ∈ d.captures, k ∈ c.captures ∨ k.tail <:+ c.rest := by
  have onward : ∀ {c e d : Cursor}, (∀ k ∈ e.captures, k ∈ c.captures ∨ k.tail <:+ c.rest) →
      e.rest <:+ c.rest → (∀ k ∈ d.captures, k ∈ e.captures ∨ k.tail <:+ e.rest) →
      ∀ k ∈ d.captures, k ∈ c.captures ∨ k.tail <:+ c.rest := by
    intro c e d hfirst hsuffix hsecond k hk
    rcases hsecond k hk with hk | hk
    · exact hfirst k hk
    · exact Or.inr (hk.trans hsuffix)
  have suffix : ∀ {p : Pattern} {c d : Cursor}, d ∈ p.outcomes c → d.rest <:+ c.rest := by
    intro p c d hd
    obtain ⟨w, hw, -⟩ := exists_reads (readsOnly_true p) c d hd
    exact ⟨w, hw.rest_eq.symm⟩
  induction p with
  | empty =>
    intro c d hd k hk
    rw [List.mem_singleton.mp hd] at hk
    exact Or.inl hk
  | one accepts =>
    intro c d hd k hk
    obtain ⟨x, xs, -, -, rfl⟩ := mem_outcomes_one.mp hd
    exact Or.inl hk
  | seq first second ih₁ ih₂ =>
    intro c d hd
    obtain ⟨e, he, hde⟩ := mem_outcomes_append.mp hd
    exact onward (ih₁ c e he) (suffix he) (ih₂ e d hde)
  | alt first second ih₁ ih₂ =>
    intro c d hd
    exact (mem_outcomes_alt.mp hd).elim (ih₁ c d) (ih₂ c d)
  | loop greedy least most body ih =>
    intro c d hd
    have hround := rel_of_mem_loopOutcomes
      (R := fun c d => d.rest <:+ c.rest ∧ ∀ k ∈ d.captures, k ∈ c.captures ∨ k.tail <:+ c.rest)
      (fun c => ⟨List.suffix_refl _, fun k hk => Or.inl hk⟩)
      (fun hfirst hsecond => ⟨hsecond.1.trans hfirst.1, onward hfirst.2 hfirst.1 hsecond.2⟩)
      (fun c d hd => ⟨suffix hd, ih c d hd⟩) greedy _ least most c d hd
    exact hround.2
  | capture i body ih =>
    intro c d hd k hk
    obtain ⟨e, he, rfl⟩ := mem_outcomes_capture.mp hd
    rcases List.mem_cons.mp hk with rfl | hk
    · exact Or.inr (List.suffix_refl _)
    · exact ih c e he k hk
  | here holds =>
    intro c d hd k hk
    obtain ⟨-, rfl⟩ := mem_outcomes_here.mp hd
    exact Or.inl hk

/-- **What a match has recorded stands in its text.** -/
theorem group_infix_of_matchHere {before : Option Char} {offset : Nat} {rest : List Char}
    (hm : p.matchHere before offset rest = some m) (index : Nat) : m.group index <:+: rest := by
  obtain ⟨d, hd, rfl⟩ := exists_outcome_of_matchHere hm
  unfold Match.group
  split
  · rename_i k hk
    rcases mem_or_suffix_of_mem_outcomes _ d hd k (List.mem_of_find?_eq_some hk) with hk | hk
    · cases hk
    · exact (List.take_prefix _ _).isInfix.trans hk.isInfix
  · exact List.nil_infix

end Infix

/-! ## What the parts of a pattern record -/

section Parts

variable {index : Nat} {P : List Char → Prop} {p q : Pattern}

@[simp] theorem recordsOnly_append :
    (p ++ q).RecordsOnly index P ↔ p.RecordsOnly index P ∧ q.RecordsOnly index P := Iff.rfl

@[simp] theorem recordsOnly_or :
    (p ||| q).RecordsOnly index P ↔ p.RecordsOnly index P ∧ q.RecordsOnly index P := Iff.rfl

@[simp] theorem recordsOnly_one (accepts : Char → Bool) : (one accepts).RecordsOnly index P :=
  trivial

@[simp] theorem recordsOnly_here (holds : Option Char → List Char → Bool) :
    (here holds).RecordsOnly index P := trivial

@[simp] theorem recordsOnly_loop {greedy : Bool} {least : Nat} {most : Option Nat} :
    (loop greedy least most p).RecordsOnly index P ↔ p.RecordsOnly index P := Iff.rfl

@[simp] theorem recordsOnly_capture_of_ne {i : Nat} (h : i ≠ index) :
    (capture i p).RecordsOnly index P ↔ p.RecordsOnly index P :=
  and_iff_left fun heq => absurd heq h

theorem recordsOnly_chain {ps : List Pattern} (h : ∀ p ∈ ps, p.RecordsOnly index P) :
    (chain ps).RecordsOnly index P := by
  induction ps with
  | nil => trivial
  | cons p ps ih =>
    obtain ⟨hp, hps⟩ := List.forall_mem_cons.mp h
    cases ps with
    | nil => exact hp
    | cons q qs => exact ⟨hp, ih hps⟩

theorem recordsOnly_anyOf {ps : List Pattern} (h : ∀ p ∈ ps, p.RecordsOnly index P) :
    (anyOf ps).RecordsOnly index P := by
  induction ps with
  | nil => trivial
  | cons p ps ih =>
    obtain ⟨hp, hps⟩ := List.forall_mem_cons.mp h
    cases ps with
    | nil => exact hp
    | cons q qs => exact ⟨hp, ih hps⟩

@[simp] theorem recordsOnly_lit (s : String) : (lit s).RecordsOnly index P :=
  recordsOnly_chain (List.forall_mem_map.mpr fun _ _ => trivial)

@[simp] theorem recordsOnly_oneOfTextsAnyCase (texts : List String) :
    (oneOfTextsAnyCase texts).RecordsOnly index P :=
  recordsOnly_anyOf (List.forall_mem_map.mpr fun _ _ =>
    recordsOnly_chain (List.forall_mem_map.mpr fun _ _ => trivial))

end Parts

end PlanAudit.Pattern
