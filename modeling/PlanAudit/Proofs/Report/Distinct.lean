import PlanAudit.Proofs.Checker.Runs
import PlanAudit.Report.Finding

/-!
# Findings are told apart

A finding is named by a digest of the checker, the category and the target.  Within one report these
three are never the same for two findings, and neither are the texts that are digested: colons set
the parts of such a text apart, and neither an identifier nor a category holds one.  So two names in
one report are the same only if the digest itself has a collision.

## Main definitions

* `Finding.key`: the checker, the category and the target of a finding
* `Finding.payload`: the text of which the name is a digest

## Main results

* `findingPayload_inj`: the text determines its parts
* `findings_told_apart`: within one report keys and texts are distinct, and equal names are
  collisions
-/

namespace PlanAudit

/-- What a finding is about. -/
def Finding.key (f : Finding) : String × String × String := (f.checker, f.category.label, f.target)

/-- The text of which the name of a finding is a digest. -/
def Finding.payload (f : Finding) : String := findingPayload f.checker f.category.label f.target

/-! ## Texts -/

/-- Texts with the same bytes are equal. -/
theorem Text.utf8Bytes_injective : Function.Injective Text.utf8Bytes := by
  intro s t h
  -- The bytes are those of a text in the library's own form, which can be decoded.
  have hencoded : s.utf8Encode = t.utf8Encode := congrArg List.toByteArray h
  have hdecoded := congrArg ByteArray.utf8Decode? hencoded
  rw [List.utf8Decode?_utf8Encode, List.utf8Decode?_utf8Encode] at hdecoded
  simpa using hdecoded

/-- A separator that stands in neither beginning ends both at once. -/
theorem append_cons_inj {α : Type} {x : α} {u u' v v' : List α} (hu : x ∉ u) (hu' : x ∉ u')
    (h : u ++ x :: v = u' ++ x :: v') : u = u' ∧ v = v' := by
  induction u generalizing u' with
  | nil =>
    cases u' with
    | nil => exact ⟨rfl, (List.cons.inj h).2⟩
    -- One beginning ends where the other goes on: the separator would stand in the other.
    | cons y u' => exact absurd (List.cons.inj h).1 (List.ne_of_not_mem_cons hu')
  | cons y u ih =>
    cases u' with
    | nil => exact absurd (List.cons.inj h).1.symm (List.ne_of_not_mem_cons hu)
    | cons y' u' =>
      obtain ⟨rfl, hrest⟩ := List.cons.inj h
      obtain ⟨rfl, hv⟩ :=
        ih (List.not_mem_of_not_mem_cons hu) (List.not_mem_of_not_mem_cons hu') hrest
      exact ⟨rfl, hv⟩

/-- **The text determines its parts**, if neither checkers nor categories hold a colon. -/
theorem findingPayload_inj {c k t c' k' t' : String} (hc : ':' ∉ c.toList) (hc' : ':' ∉ c'.toList)
    (hk : ':' ∉ k.toList) (hk' : ':' ∉ k'.toList)
    (h : findingPayload c k t = findingPayload c' k' t') : c = c' ∧ k = k' ∧ t = t' := by
  have hcolon : ":".toList = [':'] := rfl
  have hlist := congrArg String.toList h
  simp only [findingPayload, String.toList_append, hcolon, List.append_assoc,
    List.cons_append, List.nil_append] at hlist
  obtain ⟨hchecker, hrest⟩ := append_cons_inj hc hc' hlist
  obtain ⟨hcategory, htarget⟩ := append_cons_inj hk hk' hrest
  exact ⟨String.toList_inj.mp hchecker, String.toList_inj.mp hcategory,
    String.toList_inj.mp htarget⟩

theorem Category.not_mem_label (c : Category) : ':' ∉ c.label.toList := by
  cases c <;> decide

/-- A category is read back from its word. -/
theorem Category.ofLabel?_label (c : Category) : ofLabel? c.label = some c := by
  cases c <;> rfl

theorem Category.label_injective : Function.Injective Category.label := by
  intro c d h
  have hread := congrArg ofLabel? h
  rw [ofLabel?_label, ofLabel?_label] at hread
  exact Option.some.inj hread

theorem not_mem_id_of_builtin : ∀ id ∈ builtinCheckers.map (·.id), ':' ∉ id.toList := by
  decide

/-! ## Findings of sound runs -/

section Sound

variable {runs : List Run}

theorem map_key_findings (runs : List Run) : (findings runs).map Finding.key =
    (applicableRuns runs).flatMap fun r =>
      r.result.hallucinations.map fun h => (r.id, h.category.label, h.raw) := by
  rw [findings, List.map_flatMap]
  refine List.flatMap_congr fun r _ => ?_
  rw [List.map_map]
  rfl

/-- Within one run the targets are told apart by their outcome, across runs by the checker. -/
theorem nodup_keys_findings (hids : (runs.map (·.id)).Nodup)
    (hsound : ∀ r ∈ runs, r.outcome.Sound) : ((findings runs).map Finding.key).Nodup := by
  rw [map_key_findings, List.nodup_flatMap]
  constructor
  · -- Within one run: the category is told by its word, so that the keys are what is shown.
    intro r hr
    have hshown := (hsound r (List.mem_filter.mp hr).1).nodup_shown
    have hkey : r.result.hallucinations.map (fun h => (r.id, h.category.label, h.raw)) =
        (r.result.hallucinations.map Hallucination.shown).map
          fun t => (r.id, t.1.label, t.2) := by
      rw [List.map_map]
      rfl
    rw [hkey]
    refine hshown.map fun t u h => ?_
    simp only [Prod.mk.injEq, true_and] at h
    obtain ⟨hlabel, htext⟩ := h
    exact Prod.ext (Category.label_injective hlabel) htext
  · -- Across two runs: the checkers differ.
    have hdistinct : (applicableRuns runs).Pairwise fun r s => r.id ≠ s.id :=
      List.pairwise_map.mp ((List.filter_sublist.map _).nodup hids)
    refine hdistinct.imp fun {r s} hne => ?_
    intro key hr hs
    obtain ⟨h, -, rfl⟩ := List.mem_map.mp hr
    obtain ⟨h', -, heq⟩ := List.mem_map.mp hs
    exact hne (congrArg Prod.fst heq).symm

theorem checker_mem_of_mem_findings {f : Finding} (h : f ∈ findings runs) :
    f.checker ∈ runs.map (·.id) := by
  obtain ⟨r, hr, hf⟩ := List.mem_flatMap.mp h
  obtain ⟨x, -, rfl⟩ := List.mem_map.mp hf
  exact List.mem_map_of_mem (List.mem_filter.mp hr).1

theorem nodup_payloads_findings (hids : (runs.map (·.id)).Nodup)
    (hcolon : ∀ id ∈ runs.map (·.id), ':' ∉ id.toList)
    (hsound : ∀ r ∈ runs, r.outcome.Sound) : ((findings runs).map Finding.payload).Nodup := by
  have hkeys := nodup_keys_findings hids hsound
  refine (List.Nodup.of_map _ hkeys).map_on fun f hf g hg h => ?_
  have hf' := hcolon _ (checker_mem_of_mem_findings hf)
  have hg' := hcolon _ (checker_mem_of_mem_findings hg)
  obtain ⟨hchecker, hcategory, htarget⟩ :=
    findingPayload_inj hf' hg' f.category.not_mem_label g.category.not_mem_label h
  have hkey : f.key = g.key := by rw [Finding.key, Finding.key, hchecker, hcategory, htarget]
  exact List.inj_on_of_nodup_map hkeys hf hg hkey

/-- The name of a finding is a digest of its text. -/
theorem id_of_mem_findings {f : Finding} (h : f ∈ findings runs) :
    f.id = findingId f.checker f.category.label f.target := by
  obtain ⟨r, -, hf⟩ := List.mem_flatMap.mp h
  obtain ⟨x, -, rfl⟩ := List.mem_map.mp hf
  rfl

end Sound

/-! ## Findings of the library -/

/-- The digest that names a finding, of a sequence of bytes. -/
def shortDigest (bytes : List UInt8) : List Char := (Digest.hexDigest bytes).take findingIdLength

theorem shortDigest_eq_of_findingId_eq {c k t c' k' t' : String}
    (h : findingId c k t = findingId c' k' t') :
    shortDigest (Text.utf8Bytes (findingPayload c k t).toList) =
      shortDigest (Text.utf8Bytes (findingPayload c' k' t').toList) :=
  String.ofList_injective h

/-- **The findings of a report are told apart.**  Whatever the plan, the project and the options, no
two findings have the same checker, category and target, and no two names are digests of the same
text; so two findings with one name are a collision of the digest on different bytes. -/
theorem findings_told_apart (audit : Audit) (cache : Packages.ApiCache) :
    ((findings (runChecks .builtin audit cache).1).map Finding.key).Nodup ∧
    ((findings (runChecks .builtin audit cache).1).map Finding.payload).Nodup ∧
    (findings (runChecks .builtin audit cache).1).Pairwise fun f g =>
      f.id = g.id →
        Text.utf8Bytes f.payload.toList ≠ Text.utf8Bytes g.payload.toList ∧
        shortDigest (Text.utf8Bytes f.payload.toList) =
          shortDigest (Text.utf8Bytes g.payload.toList) := by
  have hids := nodup_id_runChecks audit cache
  have hcolon : ∀ id ∈ (runChecks .builtin audit cache).1.map (·.id), ':' ∉ id.toList :=
    fun id hid => not_mem_id_of_builtin id ((map_id_runChecks_sublist audit cache).subset hid)
  have hsound : ∀ r ∈ (runChecks .builtin audit cache).1, r.outcome.Sound :=
    fun r hr => sound_of_mem_runChecks audit cache hr
  have hpayloads := nodup_payloads_findings hids hcolon hsound
  refine ⟨nodup_keys_findings hids hsound, hpayloads, ?_⟩
  -- The same bytes would be the same text, which no two findings have.
  refine (List.pairwise_map.mp hpayloads).imp_of_mem fun {f g} hf hg hne hid => ?_
  refine ⟨fun hbytes => hne (String.toList_inj.mp (Text.utf8Bytes_injective hbytes)), ?_⟩
  rw [id_of_mem_findings hf, id_of_mem_findings hg] at hid
  exact shortDigest_eq_of_findingId_eq hid

end PlanAudit
