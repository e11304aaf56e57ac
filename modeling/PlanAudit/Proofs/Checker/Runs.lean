import PlanAudit.Checker.Run
import PlanAudit.Proofs.Checker.Kinds
import PlanAudit.Proofs.Supabase.Kinds
import PlanAudit.Proofs.Types.Kinds

/-!
# What holds of every run

The reports read different parts of an outcome: its counter, its list of rejected references, its
excerpt, and whether the checker applied.  They can agree because of one invariant, which holds of
whatever a checker of the library makes of an audit, and of the outcome that stands in for a fault.

## Main definitions

* `Hallucination.shown`: what a report shows of a rejected reference
* `Outcome.Sound`: the invariant
* `Checker.Sound`: the checker makes nothing but outcomes with the invariant

## Main results

* `sound_of_mem_builtinCheckers`: the checkers of the library are sound
* `sound_of_mem_runAll`: so are the outcomes of a run of sound checkers
* `map_id_runAll`: a run has the identifiers of the checkers, in order
-/

namespace PlanAudit

/-- What a report shows of a rejected reference: why it is rejected, and its text. -/
def Hallucination.shown (h : Hallucination) : Category × String := (h.category, h.raw)

/-! ## The invariant -/

/-- The parts of an outcome agree. -/
structure Outcome.Sound (o : Outcome) : Prop where
  /-- The counter counts the list. -/
  hallucinated_eq : o.result.hallucinated = o.result.hallucinations.length
  /-- What does not apply judges nothing. -/
  checked_eq : o.result.applicable = false → o.result.checked = 0
  /-- What does not apply rejects nothing. -/
  hallucinations_eq : o.result.applicable = false → o.result.hallucinations = []
  /-- No two rejected references show the same. -/
  nodup_shown : (o.result.hallucinations.map Hallucination.shown).Nodup
  /-- The excerpt has a text exactly if something was rejected. -/
  excerpt_iff : o.excerpt.any (· != "") = true ↔ o.result.hallucinations ≠ []

/-- A checker makes nothing but sound outcomes. -/
def Checker.Sound (c : Checker) : Prop :=
  ∀ audit cache o, (c.run audit cache).1 = .ok o → o.Sound

theorem Outcome.sound_notApplicable (id : String) : (Outcome.notApplicable id).Sound where
  hallucinated_eq := rfl
  checked_eq _ := rfl
  hallucinations_eq _ := rfl
  nodup_shown := List.nodup_nil
  excerpt_iff := by simp [Outcome.notApplicable, Result.notApplicable]

/-! ## Excerpts -/

section Excerpts

/-- Of a result that applies and counts what it lists, the excerpt has a text exactly if something
was rejected. -/
def ExcerptTells (excerpt : Result → Option String) : Prop :=
  ∀ r : Result, r.applicable = true → r.hallucinated = r.hallucinations.length →
    ((excerpt r).any (· != "") = true ↔ r.hallucinations ≠ [])

variable (title noun : String)

theorem excerptOf_ne_empty (count : Nat) (lines : List String) :
    excerptOf title count noun lines ≠ "" := by
  rw [excerptOf, List.cons_append, String.intercalate_cons_append]
  -- The excerpt begins with the marks of a heading.
  intro h
  have hnil := congrArg String.toList h
  rw [String.toList_append] at hnil
  exact absurd (List.append_eq_nil_iff.mp hnil).1 (by decide)

theorem excerptTells_standardExcerpt : ExcerptTells (standardExcerpt title noun) := by
  intro r happlicable _
  unfold standardExcerpt
  cases hrejected : r.hallucinations with
  | nil => simp
  | cons h rest => simp [happlicable, excerptOf_ne_empty]

theorem any_ownExcerpt {r : Result} (lines : List String)
    (hcount : r.hallucinated = r.hallucinations.length) :
    (ownExcerpt title noun lines r).any (· != "") = true ↔ r.hallucinations ≠ [] := by
  unfold ownExcerpt
  cases hrejected : r.hallucinations with
  | nil => simp [hcount, hrejected]
  | cons h rest => simp [hcount, hrejected, excerptOf_ne_empty]

end Excerpts

/-! ## Outcomes of judgements -/

theorem target_eq_of_ofReference {r : Reference} {h : Hallucination}
    (hr : Hallucination.ofReference r = .ok h) : r.target = (some h.category, h.raw) := by
  unfold Hallucination.ofReference at hr
  split at hr
  · rename_i c hc
    obtain rfl := Except.ok.inj hr
    rw [Reference.target, hc]
  · cases hr

/-- The rejected references of a result show what the rejected judgements do. -/
theorem map_target_eq {refs : List Reference} {rejections : List Hallucination}
    (h : List.Forall₂ (fun r x => Hallucination.ofReference r = .ok x) refs rejections) :
    refs.map Reference.target =
      (rejections.map Hallucination.shown).map fun t => (some t.1, t.2) := by
  induction h with
  | nil => rfl
  | cons hr hrest ih =>
    rw [List.map_cons, List.map_cons, List.map_cons, ih, target_eq_of_ofReference hr]
    rfl

/-- The outcome of judgements that show different things is sound. -/
theorem Outcome.sound_ofReferences {id : String} {refs : List Reference}
    {lines : Result → List String} {excerpt : Result → Option String} {o : Outcome}
    (hnodup : ((rejected refs).map Reference.target).Nodup) (hexcerpt : ExcerptTells excerpt)
    (h : Outcome.ofReferences id refs lines excerpt = .ok o) : o.Sound := by
  obtain ⟨result, hresult, rfl⟩ := map_eq_ok_iff.mp h
  obtain ⟨rejections, hmap, rfl⟩ := map_eq_ok_iff.mp hresult
  have htargets := map_target_eq (mapM_eq_ok_iff.mp hmap)
  -- Different references show different things, so their rejections do.
  have hshown : ((rejections.map Hallucination.shown).map fun t => (some t.1, t.2)).Nodup := by
    rw [← htargets]
    exact hnodup
  exact
    { hallucinated_eq := rfl
      checked_eq := fun happlies => nomatch happlies
      hallucinations_eq := fun happlies => nomatch happlies
      nodup_shown := List.Nodup.of_map _ hshown
      excerpt_iff := hexcerpt _ rfl rfl }

/-- What does not apply on a condition, and is sound otherwise. -/
theorem Outcome.sound_of_ite {p : Prop} [Decidable p] {id : String}
    {judged : Except Fault Outcome} {o : Outcome} (hjudged : judged = .ok o → o.Sound)
    (h : (if p then .ok (.notApplicable id) else judged) = .ok o) : o.Sound := by
  split at h
  · obtain rfl := Except.ok.inj h
    exact Outcome.sound_notApplicable id
  · exact hjudged h

/-! ## The checkers of the library -/

theorem Paths.sound_checker : Paths.checker.Sound := by
  intro audit cache o h
  obtain ⟨tree, -, ho⟩ := bind_eq_ok_iff.mp h
  exact Outcome.sound_ofReferences (nodup_targets_analyze _ _ _)
    (fun _ _ => any_ownExcerpt _ _ _) ho

theorem Prisma.sound_checker : Prisma.checker.Sound := by
  intro audit cache o h
  simp only [checker, Checker.ofPure] at h
  split at h
  · obtain rfl := Except.ok.inj h
    exact Outcome.sound_notApplicable _
  · exact Outcome.sound_ofReferences (nodup_targets_analyze _ _)
      (excerptTells_standardExcerpt _ _) h

theorem Sql.sound_checker : Sql.checker.Sound := by
  intro audit cache o h
  obtain ⟨tree, -, ho⟩ := bind_eq_ok_iff.mp h
  refine Outcome.sound_of_ite (fun hjudged => ?_) ho
  exact Outcome.sound_ofReferences (nodup_targets_analyze _ _)
    (fun _ _ => any_ownExcerpt _ _ _) hjudged

theorem Packages.sound_importChecker : Packages.importChecker.Sound := by
  intro audit cache o h
  refine Outcome.sound_of_ite (fun hjudged => ?_) h
  obtain ⟨refs, hrefs, ho⟩ := bind_eq_ok_iff.mp hjudged
  exact Outcome.sound_ofReferences (nodup_targets_analyzeImports hrefs)
    (fun _ _ => any_ownExcerpt _ _ _) ho

theorem Env.sound_checker : Env.checker.Sound := by
  intro audit cache o h
  refine Outcome.sound_of_ite (fun hjudged => ?_) h
  exact Outcome.sound_ofReferences (nodup_targets_analyze _ _)
    (fun _ _ => any_ownExcerpt _ _ _) hjudged

theorem Types.sound_checker : Types.checker.Sound := by
  intro audit cache o h
  obtain ⟨tree, -, ho⟩ := bind_eq_ok_iff.mp h
  refine Outcome.sound_of_ite (fun hjudged => ?_) ho
  exact Outcome.sound_ofReferences (nodup_targets_analyze _ _)
    (excerptTells_standardExcerpt _ _) hjudged

theorem Routes.sound_appChecker : Routes.appChecker.Sound := by
  intro audit cache o h
  obtain ⟨tree, -, ho⟩ := bind_eq_ok_iff.mp h
  refine Outcome.sound_of_ite (fun hjudged => ?_) ho
  exact Outcome.sound_ofReferences (nodup_targets_analyzeApp _ _)
    (fun _ _ => any_ownExcerpt _ _ _) hjudged

theorem Supabase.sound_checker : Supabase.checker.Sound := by
  intro audit cache o h
  obtain ⟨tree, -, ho⟩ := bind_eq_ok_iff.mp h
  simp only at ho
  split at ho
  · obtain rfl := Except.ok.inj ho
    exact Outcome.sound_notApplicable _
  · exact Outcome.sound_ofReferences (nodup_targets_analyze _ _)
      (excerptTells_standardExcerpt _ _) ho

theorem Routes.sound_callChecker : Routes.callChecker.Sound := by
  intro audit cache o h
  obtain ⟨tree, -, ho⟩ := bind_eq_ok_iff.mp h
  obtain ⟨index, -, ho⟩ := bind_eq_ok_iff.mp ho
  refine Outcome.sound_of_ite (fun hjudged => ?_) ho
  exact Outcome.sound_ofReferences (nodup_targets_analyzeCall _ _)
    (fun _ _ => any_ownExcerpt _ _ _) hjudged

theorem Packages.sound_apiChecker : Packages.apiChecker.Sound := by
  intro audit cache o h
  simp only [apiChecker] at h
  split at h
  · obtain rfl := Except.ok.inj h
    exact Outcome.sound_notApplicable _
  · obtain ⟨apis, -, ho⟩ := bind_eq_ok_iff.mp h
    refine Outcome.sound_of_ite (fun hjudged => ?_) ho
    exact Outcome.sound_ofReferences (nodup_targets_analyzeApi _ _)
      (excerptTells_standardExcerpt _ _) hjudged

/-- **The checkers of the library are sound.** -/
theorem sound_of_mem_builtinCheckers {c : Checker} (h : c ∈ builtinCheckers) : c.Sound := by
  simp only [builtinCheckers, List.mem_cons, List.not_mem_nil, or_false] at h
  rcases h with rfl | rfl | rfl | rfl | rfl | rfl | rfl | rfl | rfl | rfl
  · exact Paths.sound_checker
  · exact Prisma.sound_checker
  · exact Sql.sound_checker
  · exact Packages.sound_importChecker
  · exact Env.sound_checker
  · exact Types.sound_checker
  · exact Routes.sound_appChecker
  · exact Supabase.sound_checker
  · exact Routes.sound_callChecker
  · exact Packages.sound_apiChecker

/-! ## Runs -/

/-- A sound checker leaves a sound outcome, also where it fails. -/
theorem sound_runChecker {c : Checker} (hc : c.Sound) (audit : Audit) (cache : Packages.ApiCache) :
    (runChecker c audit cache).1.Sound := by
  unfold runChecker
  -- A checker that faults is reported as one that does not apply.
  split
  · rename_i o _ h
    exact hc audit cache o (by rw [h])
  · exact Outcome.sound_notApplicable c.id

theorem map_id_runAll (audit : Audit) (checkers : List Checker) (cache : Packages.ApiCache) :
    (runAll audit checkers cache).1.map (·.id) = checkers.map (·.id) := by
  induction checkers generalizing cache with
  | nil => rfl
  | cons c rest ih => exact congrArg (c.id :: ·) (ih _)

/-- A run is the run of one of the checkers, with whatever is remembered at that point. -/
theorem exists_of_mem_runAll {audit : Audit} {checkers : List Checker} {cache : Packages.ApiCache}
    {r : Run} (hr : r ∈ (runAll audit checkers cache).1) :
    ∃ c ∈ checkers, ∃ before, r = ⟨c.id, c.displayName, (runChecker c audit before).1⟩ := by
  induction checkers generalizing cache with
  | nil => cases hr
  | cons c rest ih =>
    rcases List.mem_cons.mp hr with rfl | hr
    · exact ⟨c, List.mem_cons_self, cache, rfl⟩
    · obtain ⟨d, hd, before, hr⟩ := ih hr
      exact ⟨d, List.mem_cons_of_mem c hd, before, hr⟩

/-- **Every outcome of a run of sound checkers is sound.** -/
theorem sound_of_mem_runAll {audit : Audit} {checkers : List Checker}
    (hsound : ∀ c ∈ checkers, c.Sound) {cache : Packages.ApiCache} {r : Run}
    (hr : r ∈ (runAll audit checkers cache).1) : r.outcome.Sound := by
  -- Whatever a checker remembers of packages, the next one is sound with it.
  obtain ⟨c, hc, before, rfl⟩ := exists_of_mem_runAll hr
  exact sound_runChecker (hsound c hc) audit before

/-! ### Runs of the library -/

section Builtin

variable (audit : Audit) (cache : Packages.ApiCache)

/-- The runs of the checkers of the library. -/
theorem runs_builtin : (runChecks .builtin audit cache).1 =
    (runAll audit (Registry.builtin.enabled audit.options.includeExperimental) cache).1 := rfl

theorem exists_of_mem_runChecks {r : Run} (hr : r ∈ (runChecks .builtin audit cache).1) :
    ∃ c ∈ builtinCheckers, ∃ before,
      r = ⟨c.id, c.displayName, (runChecker c audit before).1⟩ := by
  obtain ⟨c, hc, before, hr⟩ := exists_of_mem_runAll hr
  exact ⟨c, (List.mem_filter.mp hc).1, before, hr⟩

theorem sound_of_mem_runChecks {r : Run} (hr : r ∈ (runChecks .builtin audit cache).1) :
    r.outcome.Sound := by
  refine sound_of_mem_runAll (fun c hc => ?_) hr
  exact sound_of_mem_builtinCheckers (List.mem_filter.mp hc).1

/-- The identifiers of the runs are distinct identifiers of the library. -/
theorem map_id_runChecks_sublist :
    ((runChecks .builtin audit cache).1.map (·.id)).Sublist (builtinCheckers.map (·.id)) := by
  rw [runs_builtin, map_id_runAll]
  exact List.filter_sublist.map _

theorem nodup_id_runChecks : ((runChecks .builtin audit cache).1.map (·.id)).Nodup :=
  (map_id_runChecks_sublist audit cache).nodup Registry.builtin.nodup

end Builtin

end PlanAudit
