import PlanAudit.Proofs.Pattern.Reading
import PlanAudit.Proofs.Text.Words
import PlanAudit.Sql.Mentions

/-!
# Texts without calls of query builders

A table that is given to a query builder stands behind one of a few words with a dot.  A text in
which none of them occurs gives no table to a query builder, whatever variables hold one.

## Main definitions

* `CallFree`: no call of a query builder stands in the text

## Main results

* `CallFree.append_cons`: texts with a mark between them
* `builderMentions_eq_nil`: no table is given to a query builder
-/

namespace PlanAudit.Sql

open Text Pattern

variable {u v w t : List Char}

/-- What a call of a query builder has behind the builder. -/
def callWords : List String := [".select(", ".insert", ".update", ".delete", ".query."]

/-- No call of a query builder stands in the text. -/
def CallFree (text : List Char) : Prop := ∀ s ∈ callWords, ¬ s.toList <:+: text

theorem infix_append_cons {x : Char} (hx : x ∉ w) (h : w <:+: u ++ x :: v) :
    w <:+: u ∨ w <:+: v := by
  obtain ⟨a, b, hsplit⟩ := h
  rw [List.append_assoc] at hsplit
  rcases List.append_eq_append_iff.mp hsplit with ⟨z, rfl, hz⟩ | ⟨z, rfl, hz⟩
  · obtain ⟨y, rfl⟩ := exists_eq_append_of_not_mem hx hz
    exact Or.inl ⟨a, y, by simp⟩
  · cases z with
    | nil =>
      cases w with
      | nil => exact Or.inl ⟨[], _, rfl⟩
      | cons y w =>
        obtain ⟨rfl, -⟩ := List.cons.inj hz
        exact absurd List.mem_cons_self hx
    | cons y z =>
      obtain ⟨-, rfl⟩ := List.cons.inj hz
      exact Or.inr ⟨z, b, by simp⟩

theorem CallFree.append_cons {x : Char} (hx : ∀ s ∈ callWords, x ∉ s.toList) (hu : CallFree u)
    (hv : CallFree v) : CallFree (u ++ x :: v) := fun s hs h =>
  (infix_append_cons (hx s hs) h).elim (hu s hs) (hv s hs)

theorem callFree_of_not_mem (h : '.' ∉ w) : CallFree w := by
  intro s hs hoccurs
  have hdot : ∀ s ∈ callWords, '.' ∈ s.toList := by decide
  exact h (hoccurs.subset (hdot s hs))

/-- A call has one of these words. -/
theorem not_callFree_of_mem_builderCall {names : List String} {c d : Cursor}
    (hd : d ∈ (builderCall names).outcomes c) : ¬ CallFree c.rest := by
  obtain ⟨c₇, hd, -⟩ := mem_outcomes_append.mp hd
  obtain ⟨c₆, hd, -⟩ := mem_outcomes_append.mp hd
  obtain ⟨c₅, hd, -⟩ := mem_outcomes_append.mp hd
  obtain ⟨c₄, hd, -⟩ := mem_outcomes_append.mp hd
  obtain ⟨c₃, hd, hverb⟩ := mem_outcomes_append.mp hd
  obtain ⟨c₂, hd, hdot⟩ := mem_outcomes_append.mp hd
  obtain ⟨a, ha, -⟩ := exists_reads (readsOnly_true _) _ _ hd
  have hdot := (reads_of_mem_char hdot).rest_eq
  have hoccurs {s : String} {b r : List Char} (hs : s.toList = '.' :: b) (hr : c₃.rest = b ++ r) :
      s.toList <:+: c.rest := by
    refine ⟨a, r, ?_⟩
    rw [ha.rest_eq, hdot, hs, hr]
    simp
  intro hfree
  rcases mem_outcomes_alt.mp hverb with hverb | hverb
  · rcases mem_outcomes_alt.mp hverb with hverb | hverb
    · rcases mem_outcomes_alt.mp hverb with hverb | hverb
      · obtain ⟨e₄, hd, -⟩ := mem_outcomes_append.mp hverb
        obtain ⟨e₃, hd, -⟩ := mem_outcomes_append.mp hd
        obtain ⟨e₂, hd, -⟩ := mem_outcomes_append.mp hd
        obtain ⟨e₁, hselect, -⟩ := mem_outcomes_append.mp hd
        exact hfree ".select(" (by decide) (hoccurs rfl (reads_of_mem_lit hselect).rest_eq)
      · exact hfree ".insert" (by decide) (hoccurs rfl (reads_of_mem_lit hverb).rest_eq)
    · exact hfree ".update" (by decide) (hoccurs rfl (reads_of_mem_lit hverb).rest_eq)
  · exact hfree ".delete" (by decide) (hoccurs rfl (reads_of_mem_lit hverb).rest_eq)

theorem not_callFree_of_mem_relationalQuery {names : List String} {c d : Cursor}
    (hd : d ∈ (relationalQuery names).outcomes c) : ¬ CallFree c.rest := by
  obtain ⟨c₄, hd, -⟩ := mem_outcomes_append.mp hd
  obtain ⟨c₃, hd, -⟩ := mem_outcomes_append.mp hd
  obtain ⟨c₂, hd, -⟩ := mem_outcomes_append.mp hd
  obtain ⟨c₁, hd, hquery⟩ := mem_outcomes_append.mp hd
  obtain ⟨a, ha, -⟩ := exists_reads (readsOnly_true _) _ _ hd
  intro hfree
  refine hfree ".query." (by decide) ⟨a, c₂.rest, ?_⟩
  rw [ha.rest_eq, (reads_of_mem_lit hquery).rest_eq, List.append_assoc]

theorem CallFree.of_suffix (h : CallFree t) (hw : w <:+ t) : CallFree w := fun s hs hoccurs =>
  h s hs (hoccurs.trans hw.isInfix)

/-- **Without a call no table is given to a query builder.** -/
theorem builderMentions_eq_nil (h : CallFree t) : builderMentions t = [] := by
  have hcall : (builderCall (binders t)).findAll t = [] :=
    findScan_eq_nil fun _ _ hd hsuffix =>
      not_callFree_of_mem_builderCall hd (h.of_suffix hsuffix)
  have hquery : (relationalQuery (binders t)).findAll t = [] :=
    findScan_eq_nil fun _ _ hd hsuffix =>
      not_callFree_of_mem_relationalQuery hd (h.of_suffix hsuffix)
  simp [builderMentions, hcall, hquery]

end PlanAudit.Sql
