import Mathlib.Algebra.Order.Field.Basic
import Mathlib.Algebra.Order.Field.Rat
import PlanAudit.Proofs.Checker.Kinds
import PlanAudit.Proofs.Checker.WellFormed

/-!
# Classes of paths

A path of a plan exists, is new on purpose, or is hallucinated.  Files that are added to a project
and shapes that are added to the allowed ones can only take paths out of the last class.  The rate
of a plan compares the last class with the paths that should exist.

## Main definitions

* `Classified`: what the class of each path depends on
* `Ratio.value`: a fraction as a rational number
* `RateOf`: the rate, as the quotient of two counts

## Main results

* `classified_analyze`: every path is in exactly one class
* `hallucinatedPaths_sublist`: what is added makes no path hallucinated
* `rateOf_hallucinationRate`: the rate lies between zero and one
* `classes_of_paths`: the three together
-/

namespace PlanAudit.Paths

open Text Pattern

/-! ## Paths that exist -/

theorem stringEnds_iff {piece s : String} :
    stringEnds piece s = true ↔ piece.toList <:+ s.toList := by
  simp [stringEnds, endsWith]

theorem exists?_iff {tree : FileTree} {path : String} :
    exists? tree path = true ↔
      path ∈ tree.paths ∨ ∃ p ∈ tree.paths, ("/" ++ path).toList <:+ p.toList := by
  unfold exists? FileTree.contains FileTree.findSuffix?
  rw [Bool.or_eq_true, List.contains_iff_mem, List.find?_isSome]
  simp only [stringEnds_iff]

theorem exists?_of_subset {tree tree' : FileTree} (h : tree.paths ⊆ tree'.paths) {path : String}
    (hpath : exists? tree path = true) : exists? tree' path = true := by
  rw [exists?_iff] at hpath ⊢
  rcases hpath with hmem | ⟨p, hp, hsuffix⟩
  · exact Or.inl (h hmem)
  · exact Or.inr ⟨p, h hp, hsuffix⟩

theorem matchesAllowedNew_eq_false_iff {path : String} {shapes : List String} :
    matchesAllowedNew path shapes = false ↔
      ∀ shape ∈ shapes, (globPattern shape).matchesStart path.toList = false := by
  simp [matchesAllowedNew]

/-! ## The class of a path -/

section Judge

variable (tree : FileTree) (plan : List Char) (allowed : List String) (m : Mention)

theorem valid_judge : (judge tree plan allowed m).valid = exists? tree m.raw := by
  unfold judge
  split
  · rename_i h
    exact h.symm
  · rename_i h
    rw [Bool.not_eq_true] at h
    rw [h]
    split <;> rfl

theorem hallucinated_judge :
    (judge tree plan allowed m).hallucinated =
      (!exists? tree m.raw && !matchesAllowedNew m.raw allowed && !hasCreateSignal m.raw plan) := by
  unfold judge
  by_cases hexists : exists? tree m.raw = true
  · simp [hexists]
  · by_cases hnew : (matchesAllowedNew m.raw allowed || hasCreateSignal m.raw plan) = true
    · rw [if_neg hexists, if_pos hnew, Reference.hallucinated_announce]
      rcases Bool.or_eq_true_iff.mp hnew with h | h <;> simp [h]
    · rw [if_neg hexists, if_neg hnew, Reference.hallucinated_reject]
      rw [Bool.or_eq_true, not_or] at hnew
      simp [hexists, hnew]

end Judge

/-- What the class of each path depends on: exactly one of the three marks is set; a path exists if
the tree has it or a file whose path ends in it; and it is hallucinated if it does not exist, has
none of the allowed shapes and is not announced. -/
structure Classified (plan : List Char) (tree : FileTree) (allowed : List String)
    (refs : List Reference) : Prop where
  one_class : ∀ r ∈ refs, [r.valid, r.intentionalNew, r.hallucinated].count true = 1
  valid_iff : ∀ r ∈ refs, r.valid = true ↔
    r.raw ∈ tree.paths ∨ ∃ p ∈ tree.paths, ("/" ++ r.raw).toList <:+ p.toList
  hallucinated_iff : ∀ r ∈ refs, r.hallucinated = true ↔
    r.valid = false ∧
      (∀ shape ∈ allowed, (globPattern shape).matchesStart r.raw.toList = false) ∧
      hasCreateSignal r.raw plan = false

theorem count_classes {r : Reference} (h : r.WellFormed categories) :
    [r.valid, r.intentionalNew, r.hallucinated].count true = 1 := by
  cases hvalid : r.valid with
  | true =>
    obtain ⟨-, -, hnew⟩ := h.of_valid hvalid
    simp [Reference.hallucinated, hvalid, hnew]
  | false => cases hnew : r.intentionalNew <;> simp [Reference.hallucinated, hvalid, hnew]

theorem wellFormed_of_mem_analyze {plan : List Char} {tree : FileTree} {allowed : List String} :
    ∀ r ∈ analyze plan tree allowed, r.WellFormed categories := by
  intro r hr
  obtain ⟨m, -, rfl⟩ := List.mem_map.mp hr
  exact wellFormed_judge m tree plan allowed

/-- **Every path is in exactly one class.** -/
theorem classified_analyze (plan : List Char) (tree : FileTree) (allowed : List String) :
    Classified plan tree allowed (analyze plan tree allowed) where
  one_class := fun r hr => count_classes (wellFormed_of_mem_analyze r hr)
  valid_iff := by
    intro r hr
    obtain ⟨m, -, rfl⟩ := List.mem_map.mp hr
    rw [valid_judge, raw_judge]
    exact exists?_iff
  hallucinated_iff := by
    intro r hr
    obtain ⟨m, -, rfl⟩ := List.mem_map.mp hr
    rw [hallucinated_judge, valid_judge, raw_judge, ← matchesAllowedNew_eq_false_iff]
    simp only [Bool.and_eq_true, Bool.not_eq_true', and_assoc]

/-! ## More files and more shapes -/

theorem matchesAllowedNew_of_subset {shapes shapes' : List String} (h : shapes ⊆ shapes')
    {path : String} (hpath : matchesAllowedNew path shapes = true) :
    matchesAllowedNew path shapes' = true := by
  obtain ⟨shape, hshape, hmatch⟩ := List.any_eq_true.mp hpath
  exact List.any_eq_true.mpr ⟨shape, h hshape, hmatch⟩

theorem hallucinated_judge_of_subset {tree tree' : FileTree} {allowed allowed' : List String}
    (htree : tree.paths ⊆ tree'.paths) (hallowed : allowed ⊆ allowed') {plan : List Char}
    {m : Mention} (h : (judge tree' plan allowed' m).hallucinated = true) :
    (judge tree plan allowed m).hallucinated = true := by
  rw [hallucinated_judge] at h ⊢
  simp only [Bool.and_eq_true, Bool.not_eq_true'] at h ⊢
  obtain ⟨⟨hexists, hshape⟩, hsignal⟩ := h
  refine ⟨⟨?_, ?_⟩, hsignal⟩
  · by_contra hold
    rw [exists?_of_subset htree (Bool.not_eq_false _ ▸ hold)] at hexists
    cases hexists
  · by_contra hold
    rw [matchesAllowedNew_of_subset hallowed (Bool.not_eq_false _ ▸ hold)] at hshape
    cases hshape

/-- The hallucinated paths are those of the mentions whose judgement says so. -/
theorem hallucinatedPaths_analyze (plan : List Char) (tree : FileTree) (allowed : List String) :
    hallucinatedPaths (analyze plan tree allowed) =
      ((mentions plan).filter fun m => (judge tree plan allowed m).hallucinated).map (·.raw) := by
  unfold hallucinatedPaths analyze
  rw [List.filter_map, List.map_map]
  exact List.map_congr_left fun m _ => raw_judge tree plan allowed m

/-- **What is added to the files and to the allowed shapes makes no path hallucinated.** -/
theorem hallucinatedPaths_sublist {tree tree' : FileTree} {allowed allowed' : List String}
    (htree : tree.paths ⊆ tree'.paths) (hallowed : allowed ⊆ allowed') (plan : List Char) :
    (hallucinatedPaths (analyze plan tree' allowed')).Sublist
      (hallucinatedPaths (analyze plan tree allowed)) := by
  rw [hallucinatedPaths_analyze, hallucinatedPaths_analyze]
  apply List.Sublist.map
  apply List.monotone_filter_right
  intro m hm
  exact hallucinated_judge_of_subset htree hallowed hm

/-! ## The rate -/

/-- The fraction as a rational number. -/
def Ratio.value (r : Ratio) : ℚ := r.num / r.den

/-- The rate is the hallucinated share of the paths that should exist.  It lies between zero and
one, and it is zero if no path should exist. -/
structure RateOf (refs : List Reference) (rate : Ratio) : Prop where
  den_ne_zero : rate.den ≠ 0
  value_eq : rate.value =
    (hallucinatedPaths refs).length / ((validPaths refs).length + (hallucinatedPaths refs).length)
  nonneg : 0 ≤ rate.value
  le_one : rate.value ≤ 1
  eq_zero : (validPaths refs).length = 0 → (hallucinatedPaths refs).length = 0 → rate.value = 0

/-- The paths that are not new should exist: they do, or they are hallucinated. -/
theorem length_sub_newPaths {refs : List Reference} (h : ∀ r ∈ refs, r.WellFormed categories) :
    refs.length - (newPaths refs).length =
      (validPaths refs).length + (hallucinatedPaths refs).length := by
  have hlength := length_eq_of_wellFormed h
  simp only [List.countP_eq_length_filter] at hlength
  simp only [newPaths, validPaths, hallucinatedPaths, List.length_map]
  omega

/-- The counts that the rate is made of, unless no path should exist. -/
theorem hallucinationRate_eq {refs : List Reference} (h : ∀ r ∈ refs, r.WellFormed categories) :
    hallucinationRate refs =
      if (validPaths refs).length + (hallucinatedPaths refs).length = 0 then ⟨0, 1⟩
      else ⟨(hallucinatedPaths refs).length,
        (validPaths refs).length + (hallucinatedPaths refs).length⟩ := by
  rw [← length_sub_newPaths h]
  rfl

theorem den_hallucinationRate_ne_zero (refs : List Reference) :
    (hallucinationRate refs).den ≠ 0 := by
  unfold hallucinationRate
  dsimp only
  split
  · exact Nat.one_ne_zero
  · assumption

theorem value_hallucinationRate {refs : List Reference} (h : ∀ r ∈ refs, r.WellFormed categories) :
    (hallucinationRate refs).value =
      (hallucinatedPaths refs).length /
        ((validPaths refs).length + (hallucinatedPaths refs).length) := by
  rw [hallucinationRate_eq h]
  split
  · rename_i hden
    obtain ⟨-, hnone⟩ := Nat.add_eq_zero_iff.mp hden
    rw [hnone]
    simp [Ratio.value]
  · simp [Ratio.value]

theorem rateOf_hallucinationRate {refs : List Reference}
    (h : ∀ r ∈ refs, r.WellFormed categories) : RateOf refs (hallucinationRate refs) := by
  have hvalue := value_hallucinationRate h
  have hhallucinated : (0 : ℚ) ≤ (hallucinatedPaths refs).length := Nat.cast_nonneg _
  have hvalid : (0 : ℚ) ≤ (validPaths refs).length := Nat.cast_nonneg _
  refine ⟨den_hallucinationRate_ne_zero refs, hvalue, ?_, ?_, ?_⟩
  · rw [hvalue]
    exact div_nonneg hhallucinated (add_nonneg hvalid hhallucinated)
  · rw [hvalue]
    exact div_le_one_of_le₀ (le_add_of_nonneg_left hvalid) (add_nonneg hvalid hhallucinated)
  · intro _ hnone
    rw [hvalue, hnone]
    simp

/-- **Every path is in exactly one class, what is added makes no path hallucinated, and the rate is
the hallucinated share of the paths that should exist.** -/
theorem classes_of_paths (plan : List Char) (tree : FileTree) (allowed : List String) :
    Classified plan tree allowed (analyze plan tree allowed) ∧
      (∀ (tree' : FileTree) (allowed' : List String), tree.paths ⊆ tree'.paths →
        allowed ⊆ allowed' →
        (hallucinatedPaths (analyze plan tree' allowed')).Sublist
          (hallucinatedPaths (analyze plan tree allowed))) ∧
      RateOf (analyze plan tree allowed) (hallucinationRate (analyze plan tree allowed)) := by
  refine ⟨classified_analyze plan tree allowed, ?_, ?_⟩
  · intro tree' allowed' htree hallowed
    exact hallucinatedPaths_sublist htree hallowed plan
  · exact rateOf_hallucinationRate wellFormed_of_mem_analyze

/-- A plan that mentions four paths. -/
def fourPaths : List Char :=
  "Edit `src/app.ts`, `src/gen/api.ts`, `src/lost.ts` and `src/gone.ts`.".toList

/-- A project with one file. -/
def fewFiles : FileTree := ⟨["src/app.ts"]⟩

/-- The project with a further file, whose path ends in one of the plan. -/
def moreFiles : FileTree := ⟨["lib/src/lost.ts", "src/app.ts"]⟩

/-- Of four paths three are hallucinated, and with a further file and an allowed shape one is. -/
theorem classes_of_paths_grown :
    hallucinatedPaths (analyze fourPaths fewFiles []) =
        ["src/gen/api.ts", "src/lost.ts", "src/gone.ts"] ∧
      hallucinatedPaths (analyze fourPaths moreFiles ["src/gen/*.ts"]) = ["src/gone.ts"] ∧
      fewFiles.paths ⊆ moreFiles.paths ∧ ([] : List String) ⊆ ["src/gen/*.ts"] ∧
      (hallucinatedPaths (analyze fourPaths moreFiles ["src/gen/*.ts"])).Sublist
        (hallucinatedPaths (analyze fourPaths fewFiles [])) ∧
      Classified fourPaths fewFiles [] (analyze fourPaths fewFiles []) ∧
      RateOf (analyze fourPaths fewFiles [])
        (hallucinationRate (analyze fourPaths fewFiles [])) := by
  have hfiles : fewFiles.paths ⊆ moreFiles.paths := by decide
  have hshapes : ([] : List String) ⊆ ["src/gen/*.ts"] := by decide
  obtain ⟨hclasses, hgrown, hrate⟩ := classes_of_paths fourPaths fewFiles []
  exact ⟨by decide +kernel, by decide +kernel, hfiles, hshapes,
    hgrown moreFiles ["src/gen/*.ts"] hfiles hshapes, hclasses, hrate⟩

end PlanAudit.Paths
