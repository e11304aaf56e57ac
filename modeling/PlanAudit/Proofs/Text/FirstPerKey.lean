import Mathlib.Data.List.Dedup
import Mathlib.Data.List.Find
import Mathlib.Data.List.Nodup
import PlanAudit.Text.Basic

/-!
# The first element of each key

Wherever the library removes repetitions it keeps, of the elements with one key, the first. The list
that remains is a part of the list given, its keys are distinct, and no key is lost.

## Main results

* `firstPerKey_sublist`: nothing is added and the order stays
* `nodup_map_firstPerKey`: no key is left twice
* `exists_mem_firstPerKey`: every key that was there is still there
* `perm_map_filter_firstPerKey`: what is left of elements of one sort
-/

namespace PlanAudit.Text

variable {α κ : Type} [BEq κ] (key : α → κ)

theorem firstPerKey_sublist (l : List α) : (firstPerKey key l).Sublist l := by
  induction l with
  | nil => exact List.Sublist.refl _
  | cons a rest ih => exact ((List.filter_sublist).trans ih).cons_cons a

theorem mem_of_mem_firstPerKey {l : List α} {a : α} (h : a ∈ firstPerKey key l) : a ∈ l :=
  (firstPerKey_sublist key l).subset h

variable [LawfulBEq κ]

/-- The keys that are left are distinct. -/
theorem nodup_map_firstPerKey (l : List α) : ((firstPerKey key l).map key).Nodup := by
  induction l with
  | nil => exact List.nodup_nil
  | cons a rest ih =>
    rw [firstPerKey, List.map_cons, List.nodup_cons]
    refine ⟨fun hmem => ?_, (List.filter_sublist.map key).nodup ih⟩
    obtain ⟨b, hb, hkey⟩ := List.mem_map.mp hmem
    have hne := (List.mem_filter.mp hb).2
    simp [hkey] at hne

/-- Of elements that are their own keys none is left twice. -/
theorem nodup_firstPerKey_id (l : List κ) : (firstPerKey id l).Nodup := by
  simpa using nodup_map_firstPerKey id l

/-- Every key of the list is the key of an element that is left. -/
theorem exists_mem_firstPerKey {l : List α} {a : α} (h : a ∈ l) :
    ∃ b ∈ firstPerKey key l, key b = key a := by
  induction l with
  | nil => cases h
  | cons x rest ih =>
    by_cases hx : key a = key x
    · exact ⟨x, List.mem_cons_self, hx.symm⟩
    · have hrest : a ∈ rest := (List.mem_cons.mp h).resolve_left fun e => hx (congrArg key e)
      obtain ⟨b, hb, hkey⟩ := ih hrest
      refine ⟨b, List.mem_cons_of_mem x (List.mem_filter.mpr ⟨hb, ?_⟩), hkey⟩
      simpa [hkey] using hx

/-- An element that is its own key stays in the list. -/
theorem mem_firstPerKey_id {l : List κ} {a : κ} : a ∈ firstPerKey id l ↔ a ∈ l := by
  refine ⟨mem_of_mem_firstPerKey id, fun h => ?_⟩
  obtain ⟨b, hb, rfl⟩ := exists_mem_firstPerKey id h
  exact hb

/-- **What is left of some of the elements**: if these are told apart by their keys, and from the
others, then each of them is left once. -/
theorem perm_map_filter_firstPerKey {β : Type} [DecidableEq β] {l : List α} {P : α → Bool}
    {f : α → β} (hkey : ∀ a ∈ l, P a = true → ∀ b ∈ l, key b = key a ↔ P b = true ∧ f b = f a)
    {found : List β} (hfound : ∀ x, x ∈ (l.filter P).map f ↔ x ∈ found) :
    (((firstPerKey key l).filter P).map f).Perm found.dedup := by
  have hleft : ∀ {a}, a ∈ (firstPerKey key l).filter P → a ∈ l ∧ P a = true := fun ha =>
    (List.mem_filter.mp ha).imp_left (mem_of_mem_firstPerKey key)
  have hnodup : (((firstPerKey key l).filter P).map f).Nodup := by
    have hkeys : (((firstPerKey key l).filter P).map key).Nodup :=
      (List.filter_sublist.map key).nodup (nodup_map_firstPerKey key l)
    refine List.Nodup.map_on (fun a ha b hb heq => ?_) hkeys.of_map
    have hsame := (hkey b (hleft hb).1 (hleft hb).2 a (hleft ha).1).mpr ⟨(hleft ha).2, heq⟩
    exact List.inj_on_of_nodup_map hkeys ha hb hsame
  refine (List.perm_ext_iff_of_nodup hnodup (List.nodup_dedup found)).mpr fun x => ?_
  rw [List.mem_dedup, ← hfound, List.mem_map, List.mem_map]
  constructor
  · rintro ⟨a, ha, rfl⟩
    exact ⟨a, List.mem_filter.mpr (hleft ha), rfl⟩
  · rintro ⟨a, ha, rfl⟩
    obtain ⟨hmem, hP⟩ := List.mem_filter.mp ha
    obtain ⟨b, hb, hsame⟩ := exists_mem_firstPerKey key hmem
    obtain ⟨hPb, hf⟩ := (hkey a hmem hP b (mem_of_mem_firstPerKey key hb)).mp hsame
    exact ⟨b, List.mem_filter.mpr ⟨hb, hPb⟩, hf⟩

/-- The first element with a property is not lost. -/
theorem find?_firstPerKey_id (l : List κ) (p : κ → Bool) :
    (firstPerKey id l).find? p = l.find? p := by
  induction l with
  | nil => rfl
  | cons a rest ih =>
    rw [firstPerKey, List.find?_cons, List.find?_cons]
    cases hp : p a with
    | true => rfl
    | false =>
      -- What is left out behind `a` is `a` again, which does not have the property.
      rw [List.find?_filter, ← ih]
      refine List.find?_congr fun b _ => ?_
      by_cases hb : b = a
      · simp [hb, hp]
      · simp [hb]

end PlanAudit.Text
