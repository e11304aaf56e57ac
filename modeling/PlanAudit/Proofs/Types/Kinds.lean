import PlanAudit.Proofs.Checker.Evidence
import PlanAudit.Proofs.Pattern.Reading
import PlanAudit.Types.Judgement

/-!
# Types and members are told apart by their texts

An unknown type is reported in the same way for a mention of the type and for a mention of a member
of it.  The text tells which was meant: a member stands after a dot or between square brackets, and
the name of a type holds neither.

## Main definitions

* `ShowsMember raw`: the text is that of a member
* `told`: the sort of thing with a category and a text

## Main results

* `nodup_targets_analyze`: no two rejected types or members show the same
-/

namespace PlanAudit.Types

open PlanAudit.Text Pattern

/-- The text holds the dot or the bracket that sets a member off from its type. -/
def ShowsMember (raw : String) : Prop := '.' ∈ raw.toList ∨ '[' ∈ raw.toList

instance (raw : String) : Decidable (ShowsMember raw) := inferInstanceAs (Decidable (_ ∨ _))

/-- The sort of thing that was rejected for a category with a text. -/
def told (c : Category) (raw : String) : Kind :=
  if c = .type ∧ ¬ ShowsMember raw then .type else .member

/-! ## Names of types -/

theorem forall_mem_of_isPascalCase {name : String} (h : isPascalCase name = true) :
    ∀ x ∈ name.toList, isAlphanumericAscii x = true ∨ x = '\n' := by
  have hmatch : pascalName.matchesStart name.toList = true := (Bool.and_eq_true_iff.mp h).1
  have hreads : (one isUpperAscii ++ plus (one isAlphanumericAscii)).ReadsOnly
      fun x => isAlphanumericAscii x = true := by
    refine ⟨fun x hx => ?_, fun x hx => hx⟩
    simp [isAlphanumericAscii, hx]
  exact forall_mem_of_matchesStart hreads hmatch

theorem not_showsMember_of_isPascalCase {name : String} (h : isPascalCase name = true) :
    ¬ ShowsMember name := by
  rintro (hdot | hbracket)
  · exact absurd (forall_mem_of_isPascalCase h _ hdot) (by decide)
  · exact absurd (forall_mem_of_isPascalCase h _ hbracket) (by decide)

/-! ## Mentions -/

/-- Every mention is of a type, or of a member that is set off in the text. -/
theorem shape_of_mem_allMentions {code : List Char} {m : Mention} (h : m ∈ allMentions code) :
    (∃ type, m = typeMention type) ∨ (m.kind = .member ∧ ShowsMember m.raw) := by
  have captured {p : Pattern} (hm : m ∈ captureMentions p code) : ∃ type, m = typeMention type := by
    obtain ⟨found, -, rfl⟩ := List.mem_map.mp hm
    exact ⟨_, rfl⟩
  unfold allMentions at h
  simp only [List.mem_append] at h
  -- Annotations and lists of parents name types, dots and brackets set off members, and then types
  -- again.
  rcases h with ((((hm | hm) | hm) | hm) | hm) | hm
  · exact Or.inl (captured hm)
  · obtain ⟨found, -, hm⟩ := List.mem_flatMap.mp hm
    obtain ⟨part, -, rfl⟩ := List.mem_map.mp hm
    exact Or.inl ⟨_, rfl⟩
  · obtain ⟨found, -, rfl⟩ := List.mem_map.mp hm
    refine Or.inr ⟨rfl, Or.inl ?_⟩
    simp [memberMention, String.toList_append]
  · obtain ⟨found, -, rfl⟩ := List.mem_map.mp hm
    refine Or.inr ⟨rfl, Or.inr ?_⟩
    simp [memberMention, String.toList_append]
  · exact Or.inl (captured hm)
  · exact Or.inl (captured hm)

/-- The text of a mention shows a member exactly if one is mentioned. -/
theorem shape_of_mem_mentions {plan : List Char} {m : Mention} (h : m ∈ mentions plan) :
    (m.kind = .type ∧ m.name = none ∧ ¬ ShowsMember m.raw) ∨
      (m.kind = .member ∧ ShowsMember m.raw) := by
  have hmem := mem_of_mem_firstPerKey _ (List.mem_filter.mp h).1
  obtain ⟨hall, hcounts⟩ := List.mem_filter.mp hmem
  rcases shape_of_mem_allMentions hall with ⟨type, rfl⟩ | hmember
  · have hpascal : isPascalCase type = true := (Bool.and_eq_true_iff.mp hcounts).1
    exact Or.inl ⟨rfl, rfl, not_showsMember_of_isPascalCase hpascal⟩
  · exact Or.inr hmember

/-! ## Judgements -/

theorem exists_reject_of_judge {index : Index} {plan : List Char} {m : Mention}
    (hm : m ∈ mentions plan) (hrej : (judge index m).hallucinated = true) :
    ∃ c s, judge index m = m.reject c s ∧ m.kind = told c m.raw := by
  unfold judge at hrej ⊢
  split at hrej
  · -- An unknown type is rejected as such also where a member of it is mentioned.
    refine ⟨.type, _, rfl, ?_⟩
    rcases shape_of_mem_mentions hm with ⟨hkind, -, hshow⟩ | ⟨hkind, hshow⟩
    · rw [hkind, told, if_pos ⟨rfl, hshow⟩]
    · rw [hkind, told, if_neg fun h => h.2 hshow]
  · split at hrej
    · cases hrej
    · rename_i member hname
      split at hrej
      · cases hrej
      · -- Only a member has a name of its own.
        rw [if_neg ‹_›]
        refine ⟨.member, _, rfl, ?_⟩
        rcases shape_of_mem_mentions hm with ⟨-, hnone, -⟩ | ⟨hkind, -⟩
        · rw [hname] at hnone
          cases hnone
        · rw [hkind]
          rfl

theorem nodup_targets_analyze (plan : List Char) (index : Index) :
    ((rejected (analyze plan index)).map Reference.target).Nodup := by
  refine nodup_targets_dedupe (KindTold.of_reject told fun r hr hrej => ?_)
  obtain ⟨m, hm, rfl⟩ := List.mem_map.mp hr
  obtain ⟨c, s, hreject, hkind⟩ := exists_reject_of_judge hm hrej
  exact ⟨m, c, s, hreject, hkind⟩

end PlanAudit.Types
