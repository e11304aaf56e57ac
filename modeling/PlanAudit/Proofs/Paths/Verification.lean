import PlanAudit.Proofs.Files.IgnoreLines
import PlanAudit.Proofs.Paths.Classes
import PlanAudit.Proofs.Report.Agreement

/-!
# When paths are verified

The ignore file of a project is read before anything is scanned, and a fault in it is a fault of
every checker that scans: the run goes on, but these checkers are reported as not applicable.  So a
plan with paths that do not exist is rejected exactly if the ignore file has no fault, and where it
has one, no finding of a checker that scans is left.

## Main definitions

* `scanningCheckers`: the checkers that scan the project

## Main results

* `exitCode_of_mem_hallucinatedPaths`: a path that does not exist is found and makes the audit fail
* `runChecker_of_error`: with a faulty ignore file no checker that scans applies
* `Paths.verified_iff`: both together
* `Paths.verification_switched_off`: one byte can make a finding go away
-/

namespace PlanAudit

/-- The checkers that scan the project. -/
def scanningCheckers : List Checker :=
  [Paths.checker, Sql.checker, Types.checker, Routes.appChecker, Supabase.checker,
    Routes.callChecker]

variable (a : Audit) (cache : Packages.ApiCache)

theorem exists_tree_eq_ok_iff :
    (∃ tree, a.tree = .ok tree) ↔ a.project.files.SoundIgnoreFile a.project.directory := by
  rw [← FileSystem.exists_ignoreRules_eq_ok_iff]
  unfold Audit.tree Project.scan FileSystem.scan
  constructor
  · rintro ⟨tree, htree⟩
    obtain ⟨rules, hrules, -⟩ := map_eq_ok_iff.mp htree
    exact ⟨rules, hrules⟩
  · rintro ⟨rules, hrules⟩
    exact ⟨_, map_eq_ok_iff.mpr ⟨rules, hrules, rfl⟩⟩

/-! ## A sound ignore file -/

namespace Paths

/-- The checker of paths applies to a project that can be scanned, and lists what it rejects. -/
theorem exists_run_checker_eq {tree : FileTree} (htree : a.tree = .ok tree) :
    ∃ o, Paths.checker.run a cache = (.ok o, cache) ∧ o.result.applicable = true ∧
      ((analyze a.plan tree a.options.allowedNew).filter (·.hallucinated)).mapM
        Hallucination.ofReference = .ok o.result.hallucinations := by
  have hwellFormed : ∀ r ∈ analyze a.plan tree a.options.allowedNew, r.WellFormed categories :=
    wellFormed_of_mem_analyze
  obtain ⟨result, hresult, -⟩ := Result.ofReferences_of_wellFormed "paths" hwellFormed
  obtain ⟨rejections, hrejections, rfl⟩ := map_eq_ok_iff.mp hresult
  have hrun : (Paths.checker.run a cache).1 = .ok _ :=
    bind_eq_ok_iff.mpr ⟨tree, htree, map_eq_ok_iff.mpr ⟨_, hresult, rfl⟩⟩
  exact ⟨_, Prod.ext hrun rfl, rfl, hrejections⟩

/-- A hallucinated path is listed under its own text. -/
theorem exists_hallucination_of_mem {refs : List Reference} {rejections : List Hallucination}
    (hrefs : ∀ r ∈ refs, r.WellFormed categories)
    (h : (refs.filter (·.hallucinated)).mapM Hallucination.ofReference = .ok rejections)
    {path : String} (hpath : path ∈ hallucinatedPaths refs) :
    ∃ x ∈ rejections, x.category = .path ∧ x.raw = path := by
  obtain ⟨r, hr, rfl⟩ := List.mem_map.mp hpath
  obtain ⟨x, hx, hofReference⟩ := mem_of_mapM_eq_ok h hr
  obtain ⟨hmem, hrejected⟩ := List.mem_filter.mp hr
  obtain ⟨c, hc, hcategory⟩ := (hrefs r hmem).of_rejected
    (by simpa using (Bool.and_eq_true_iff.mp hrejected).1)
    (by simpa using (Bool.and_eq_true_iff.mp hrejected).2)
  -- Paths are rejected for one category only, and the rejection shows what the reference does.
  obtain rfl : c = .path := List.mem_singleton.mp hc
  have htarget := target_eq_of_ofReference hofReference
  rw [Reference.target, hcategory, Prod.mk.injEq, Option.some.injEq] at htarget
  exact ⟨x, hx, htarget.1.symm, htarget.2.symm⟩

end Paths

/-- The checker of paths takes part in every audit, before all others. -/
theorem exists_runChecks_eq : ∃ rest, (runChecks .builtin a cache).1 =
    ⟨"paths", "File Paths", (runChecker Paths.checker a cache).1⟩ :: rest := by
  have henabled : ∃ others,
      Registry.builtin.enabled a.options.includeExperimental = Paths.checker :: others := by
    cases a.options.includeExperimental <;> exact ⟨_, rfl⟩
  obtain ⟨others, hothers⟩ := henabled
  rw [runs_builtin, hothers]
  exact ⟨_, rfl⟩

theorem exitCode_eq_one {f : Finding} (hf : f ∈ findings (runChecks .builtin a cache).1) :
    exitCode (runChecks .builtin a cache).1 = 1 := by
  have hcount := length_findings fun r hr => sound_of_mem_runChecks a cache hr
  have hpos := List.length_pos_of_mem hf
  exact if_neg (by omega)

/-- **A path that does not exist is found, and the audit fails.** -/
theorem exitCode_of_mem_hallucinatedPaths {tree : FileTree} (htree : a.tree = .ok tree)
    {path : String}
    (hpath : path ∈ Paths.hallucinatedPaths (Paths.analyze a.plan tree a.options.allowedNew)) :
    (∃ f ∈ findings (runChecks .builtin a cache).1,
      f.checker = "paths" ∧ f.category = .path ∧ f.target = path) ∧
      exitCode (runChecks .builtin a cache).1 = 1 := by
  obtain ⟨o, hrun, happlies, hlisted⟩ := Paths.exists_run_checker_eq a cache htree
  obtain ⟨x, hx, hcategory, hraw⟩ :=
    Paths.exists_hallucination_of_mem Paths.wellFormed_of_mem_analyze hlisted hpath
  obtain ⟨rest, hruns⟩ := exists_runChecks_eq a cache
  have houtcome : (runChecker Paths.checker a cache).1 = o := by rw [runChecker, hrun]
  have hfinding : Finding.ofHallucination "paths" x ∈ findings (runChecks .builtin a cache).1 := by
    refine List.mem_flatMap.mpr ⟨⟨"paths", "File Paths", o⟩, ?_, List.mem_map_of_mem hx⟩
    rw [hruns, houtcome]
    exact List.mem_filter.mpr ⟨List.mem_cons_self, happlies⟩
  exact ⟨⟨_, hfinding, rfl, hcategory, hraw⟩, exitCode_eq_one a cache hfinding⟩

/-! ## A faulty ignore file -/

/-- A checker that scans fails with the scan. -/
theorem run_eq_error {fault : Fault} (hfault : a.tree = .error fault) {c : Checker}
    (hc : c ∈ scanningCheckers) : c.run a cache = (.error fault, cache) := by
  simp only [scanningCheckers, List.mem_cons, List.not_mem_nil, or_false] at hc
  rcases hc with rfl | rfl | rfl | rfl | rfl | rfl
  all_goals exact Prod.ext (bind_eq_error hfault _) rfl

theorem runChecker_of_error {fault : Fault} (hfault : a.tree = .error fault) {c : Checker}
    (hc : c ∈ scanningCheckers) : runChecker c a cache = (.notApplicable c.id, cache) := by
  rw [runChecker, run_eq_error a cache hfault hc]

theorem scanningCheckers_subset : scanningCheckers ⊆ builtinCheckers := by
  intro c hc
  simp only [scanningCheckers, List.mem_cons, List.not_mem_nil, or_false] at hc
  simp only [builtinCheckers, List.mem_cons, List.not_mem_nil, or_false]
  tauto

/-- No finding is left of a checker that scans. -/
theorem checker_notMem_of_error {fault : Fault} (hfault : a.tree = .error fault) {f : Finding}
    (hf : f ∈ findings (runChecks .builtin a cache).1) :
    f.checker ∉ scanningCheckers.map (·.id) := by
  intro hscans
  obtain ⟨r, hr, hmem⟩ := List.mem_flatMap.mp hf
  obtain ⟨hr, happlies⟩ := List.mem_filter.mp hr
  obtain ⟨x, -, rfl⟩ := List.mem_map.mp hmem
  obtain ⟨c, hc, before, rfl⟩ := exists_of_mem_runChecks a cache hr
  -- Identifiers are distinct, so the finding is of the checker that scans itself.
  obtain ⟨d, hd, hid⟩ := List.mem_map.mp hscans
  obtain rfl := List.inj_on_of_nodup_map Registry.builtin.nodup (scanningCheckers_subset hd) hc hid
  rw [Run.applicable, runChecker_of_error a before hfault hd] at happlies
  cases happlies

/-! ## Both together -/

/-- **Paths are verified exactly if the ignore file is sound.**  Then every hallucinated path is
found and makes the audit fail; otherwise no checker that scans applies, and no finding is left of
any of them. -/
theorem Paths.verified_iff :
    ((runChecker Paths.checker a cache).1.result.applicable = true ↔
      a.project.files.SoundIgnoreFile a.project.directory) ∧
    (a.project.files.SoundIgnoreFile a.project.directory →
      ∃ tree, a.tree = .ok tree ∧
        ∀ path ∈ hallucinatedPaths (analyze a.plan tree a.options.allowedNew),
          (∃ f ∈ findings (runChecks .builtin a cache).1,
            f.checker = "paths" ∧ f.category = .path ∧ f.target = path) ∧
          exitCode (runChecks .builtin a cache).1 = 1) ∧
    (¬ a.project.files.SoundIgnoreFile a.project.directory →
      (∀ c ∈ scanningCheckers, runChecker c a cache = (.notApplicable c.id, cache)) ∧
        ∀ f ∈ findings (runChecks .builtin a cache).1,
          f.checker ∉ scanningCheckers.map (·.id)) := by
  rw [← exists_tree_eq_ok_iff]
  cases htree : a.tree with
  | ok tree =>
    obtain ⟨o, hrun, happlies, -⟩ := exists_run_checker_eq a cache htree
    refine ⟨iff_of_true ?_ ⟨tree, rfl⟩, fun _ => ⟨tree, rfl, fun path hpath => ?_⟩,
      fun hnone => absurd ⟨tree, rfl⟩ hnone⟩
    · rw [runChecker, hrun]
      exact happlies
    · exact exitCode_of_mem_hallucinatedPaths a cache htree hpath
  | error fault =>
    have hfaulty : ¬∃ tree, (.error fault : Except Fault FileTree) = .ok tree := nofun
    refine ⟨iff_of_false ?_ hfaulty, fun hsome => absurd hsome hfaulty, fun _ =>
      ⟨fun c hc => runChecker_of_error a cache htree hc,
        fun f hf => checker_notMem_of_error a cache htree hf⟩⟩
    rw [runChecker_of_error a cache htree List.mem_cons_self]
    exact Bool.false_ne_true

/-! ## One byte that is no text -/

namespace Paths

/-- A plan with a path that the project does not have; the ignore file of the project holds a
comment in Latin-1. -/
def latinAudit : Audit where
  plan := "\x60src/missing.ts\x60".toList
  project :=
    { files := ⟨[(["app"], .directory),
        (["app", ".gitignore"], .file (.ofBytes [35, 32, 99, 97, 102, 233, 10])),
        (["app", "src"], .directory), (["app", "src", "a.ts"], .file (.text []))]⟩
      directory := ["app"] }
  options := {}

theorem not_soundIgnoreFile_latinAudit :
    ¬ latinAudit.project.files.SoundIgnoreFile latinAudit.project.directory := by
  intro hsound
  obtain ⟨text, htext, -⟩ := hsound (.ofBytes [35, 32, 99, 97, 102, 233, 10]) (by decide +kernel)
  cases htext

/-- **One byte switches the verification off**: the plan mentions a path that the project does not
have, and nothing is found. -/
theorem verification_switched_off :
    latinAudit.project.files.isDirectory latinAudit.project.directory = true ∧
      (mentions latinAudit.plan).map (·.raw) = ["src/missing.ts"] ∧
      latinAudit.project.isFile "src/missing.ts" = false ∧
      (∀ cache, (runChecker checker latinAudit cache).1.result.applicable = false) ∧
      exitCode (runChecks .builtin latinAudit .empty).1 = 0 := by
  refine ⟨by decide +kernel, by decide +kernel, by decide +kernel, fun cache => ?_,
    by decide +kernel⟩
  have hfaulty := mt (exists_tree_eq_ok_iff latinAudit).mp not_soundIgnoreFile_latinAudit
  cases htree : latinAudit.tree with
  | ok tree => exact absurd ⟨tree, htree⟩ hfaulty
  | error fault => rw [runChecker_of_error latinAudit cache htree List.mem_cons_self]; rfl

end Paths

end PlanAudit
