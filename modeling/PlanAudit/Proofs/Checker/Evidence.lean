import PlanAudit.Checker.Basic
import PlanAudit.Proofs.Text.FirstPerKey

/-!
# What tells rejected references apart

References are freed of repetitions by their evidence, which includes what sort of thing is
mentioned.  A report shows less: the category and the text.  The two agree wherever the category and
the text of a rejected reference tell its sort.

## Main definitions

* `Reference.target`: what a report shows of a rejected reference
* `rejected`: the rejected references of a list
* `KindTold`: the category and the text of a rejected reference tell its sort

## Main results

* `nodup_targets_dedupe`: no two references that are left show the same
-/

namespace PlanAudit

namespace Reference

/-- What a report shows of a rejected reference: why it is rejected, and its text. -/
def target (r : Reference) : Option Category × String := (r.category, r.raw)

end Reference

/-- The references that neither exist nor will be created. -/
def rejected (refs : List Reference) : List Reference := refs.filter (·.hallucinated)

theorem mem_rejected {refs : List Reference} {r : Reference} :
    r ∈ rejected refs ↔ r ∈ refs ∧ r.hallucinated = true :=
  List.mem_filter

/-- Every rejected reference has a category, and the category and the text tell what sort of thing
is mentioned. -/
def KindTold (refs : List Reference) : Prop :=
  ∃ told : Category → String → Kind, ∀ r ∈ rejected refs,
    ∃ c, r.category = some c ∧ r.kind = told c r.raw

/-- It is enough that every rejected reference is a mention that was rejected for a category that
tells, with the text, the sort of the mention. -/
theorem KindTold.of_reject {refs : List Reference} (told : Category → String → Kind)
    (h : ∀ r ∈ refs, r.hallucinated = true →
      ∃ m c s, r = Mention.reject m c s ∧ m.kind = told c m.raw) : KindTold refs := by
  refine ⟨told, fun r hr => ?_⟩
  obtain ⟨hmem, hrej⟩ := mem_rejected.mp hr
  obtain ⟨m, c, s, rfl, hkind⟩ := h r hmem hrej
  exact ⟨c, rfl, hkind⟩

/-- **No two rejected references show the same**, if repetitions of the evidence are removed and the
sort of a rejected reference is told by what it shows. -/
theorem nodup_targets_dedupe {refs : List Reference} (h : KindTold refs) :
    ((rejected (Reference.dedupe refs)).map Reference.target).Nodup := by
  obtain ⟨told, htold⟩ := h
  have hevidence : ((rejected (Reference.dedupe refs)).map Reference.evidence).Nodup :=
    (List.filter_sublist.map Reference.evidence).nodup
      (Text.nodup_map_firstPerKey Reference.evidence refs)
  -- The evidence of a rejected reference can be put together from what the report shows of it.
  have hfactor : (rejected (Reference.dedupe refs)).map Reference.evidence =
      ((rejected (Reference.dedupe refs)).map Reference.target).map
        fun t => (t.2, (t.1.map fun c => told c t.2).getD .env, false, t.1) := by
    rw [List.map_map]
    refine List.map_congr_left fun r hr => ?_
    obtain ⟨hmem, hrej⟩ := mem_rejected.mp hr
    obtain ⟨c, hc, hkind⟩ :=
      htold r (mem_rejected.mpr ⟨Text.mem_of_mem_firstPerKey Reference.evidence hmem, hrej⟩)
    have hvalid : r.valid = false := by
      simp only [Reference.hallucinated, Bool.and_eq_true, Bool.not_eq_true'] at hrej
      exact hrej.1
    simp [Reference.evidence, Reference.target, hc, hkind, hvalid]
  rw [hfactor] at hevidence
  exact List.Nodup.of_map _ hevidence

end PlanAudit
