import Mathlib.Data.List.Forall2
import PlanAudit.Fault

/-!
# Results without faults

A computation that may fault in several places gives a result exactly if no step on the way to it
faults.  Where one step is taken for every element of a list, the result lists those of the steps in
order.

## Main results

* `bind_eq_ok_iff`, `map_eq_ok_iff`: one step after another
* `mapM_eq_ok_iff`: the results of a successful pass through a list
* `mem_of_mapM_eq_ok`, `exists_mem_of_mapM_eq_ok`: each element of the list has one of them, and
  each of them comes from an element of the list
-/

namespace PlanAudit

variable {ε α β : Type}

/-! ## One step after another -/

theorem bind_eq_ok_iff {x : Except ε α} {f : α → Except ε β} {b : β} :
    x.bind f = .ok b ↔ ∃ a, x = .ok a ∧ f a = .ok b := by
  cases x with
  | error fault =>
    constructor
    · intro h
      cases h
    · rintro ⟨a, ha, -⟩
      cases ha
  | ok a =>
    refine ⟨fun h => ⟨a, rfl, h⟩, ?_⟩
    rintro ⟨a', ha, hb⟩
    rw [← Except.ok.inj ha] at hb
    exact hb

/-- A fault in the first step is the fault of all. -/
theorem bind_eq_error {x : Except ε α} {fault : ε} (h : x = .error fault) (f : α → Except ε β) :
    x.bind f = .error fault := by
  rw [h]
  rfl

theorem map_eq_ok_iff {x : Except ε α} {f : α → β} {b : β} :
    x.map f = .ok b ↔ ∃ a, x = .ok a ∧ f a = b := by
  cases x with
  | error fault =>
    constructor
    · intro h
      cases h
    · rintro ⟨a, ha, -⟩
      cases ha
  | ok a =>
    refine ⟨fun h => ⟨a, rfl, Except.ok.inj h⟩, ?_⟩
    rintro ⟨a', ha, rfl⟩
    rw [ha]
    rfl

theorem eq_ok_of_toOption_eq_some {x : Except Fault α} {a : α} (h : x.toOption = some a) :
    x = .ok a := by
  cases x with
  | error fault => cases h
  | ok b => exact congrArg Except.ok (Option.some.inj h)

/-! ## One step for every element -/

variable {f : α → Except Fault β} {as : List α} {bs : List β}

theorem mapM_eq_ok_iff : as.mapM f = .ok bs ↔ List.Forall₂ (fun a b => f a = .ok b) as bs := by
  induction as generalizing bs with
  | nil =>
    rw [List.mapM_nil, List.forall₂_nil_left_iff]
    exact ⟨fun h => (Except.ok.inj h).symm, fun h => h ▸ rfl⟩
  | cons a as ih =>
    rw [List.mapM_cons, List.forall₂_cons_left_iff]
    constructor
    · -- There is a result only if neither the first step nor the pass through the rest faults.
      intro h
      cases ha : f a with
      | error fault =>
        rw [ha] at h
        cases h
      | ok b =>
        cases hrest : as.mapM f with
        | error fault =>
          rw [ha, hrest] at h
          cases h
        | ok rest =>
          rw [ha, hrest] at h
          exact ⟨b, rest, rfl, ih.mp hrest, (Except.ok.inj h).symm⟩
    · rintro ⟨b, rest, ha, hrest, rfl⟩
      rw [ha, ih.mpr hrest]
      rfl

/-- Only the results of the elements matter. -/
theorem mapM_congr {g : α → Except Fault β} (h : ∀ a ∈ as, f a = g a) : as.mapM f = as.mapM g := by
  induction as with
  | nil => rfl
  | cons a as ih =>
    obtain ⟨ha, has⟩ := List.forall_mem_cons.mp h
    rw [List.mapM_cons, List.mapM_cons, ha, ih has]

/-- There is a result for the list if there is one for every element. -/
theorem exists_mapM_eq_ok (h : ∀ a ∈ as, ∃ b, f a = .ok b) : ∃ bs, as.mapM f = .ok bs := by
  simp only [mapM_eq_ok_iff]
  induction as with
  | nil => exact ⟨[], .nil⟩
  | cons a as ih =>
    obtain ⟨b, hb⟩ := h a List.mem_cons_self
    obtain ⟨bs, hbs⟩ := ih fun a' ha' => h a' (List.mem_cons_of_mem a ha')
    exact ⟨b :: bs, .cons hb hbs⟩

/-- Every element of the list has a result. -/
theorem mem_of_mapM_eq_ok (h : as.mapM f = .ok bs) {a : α} (ha : a ∈ as) :
    ∃ b ∈ bs, f a = .ok b := by
  have hall := mapM_eq_ok_iff.mp h
  induction hall with
  | nil => cases ha
  | cons hhead hrest ih =>
    rcases List.mem_cons.mp ha with rfl | ha
    · exact ⟨_, List.mem_cons_self, hhead⟩
    · obtain ⟨b, hmem, hfa⟩ := ih (mapM_eq_ok_iff.mpr hrest) ha
      exact ⟨b, List.mem_cons_of_mem _ hmem, hfa⟩

/-- Every result comes from an element of the list. -/
theorem exists_mem_of_mapM_eq_ok (h : as.mapM f = .ok bs) {b : β} (hb : b ∈ bs) :
    ∃ a ∈ as, f a = .ok b := by
  have hall := mapM_eq_ok_iff.mp h
  induction hall with
  | nil => cases hb
  | cons ha hrest ih =>
    rcases List.mem_cons.mp hb with rfl | hb
    · exact ⟨_, List.mem_cons_self, ha⟩
    · obtain ⟨a, hmem, hfa⟩ := ih (mapM_eq_ok_iff.mpr hrest) hb
      exact ⟨a, List.mem_cons_of_mem _ hmem, hfa⟩

end PlanAudit
