import PlanAudit.Proofs.Catalog
import PlanAudit.Proofs.Report.Sections

/-!
# The tools agree

The tool of a checker and the tool for all checkers come to what they say on different ways: other
choices reach the checker, in a run of its own or in one behind the other checkers, and its lines
are stripped alone or at the end of the report.  They say the same for three reasons.  A checker
reads no more of the choices than its own tool takes.  Only the last checker looks at what is
remembered of packages, so that all of them start from the same memory.  And the report is made of
the sections of the checkers that applied.

## Main definitions

* `ToolCall.forChecker`, `ToolCall.forAll`: the same call to the tool of a checker and to that for
  all of them
* `ToolsAgree`: what all tools say of one call

## Main results

* `run_forChecker`: a checker makes the same of both calls
* `runAll_builtinCheckers`: the run of each checker is a run of its own
* `tools_agree`: the tools agree on every call
-/

namespace PlanAudit

open Text

/-! ## The same call -/

/-- What the tool of a checker takes of the choices: the one of the Prisma schema takes its path,
the one of file paths takes shapes of new paths. -/
def CallOptions.takenBy (id : String) (o : CallOptions) : CallOptions where
  schemaPath := if id = "schema" then o.schemaPath else none
  allowedNew := if id = "paths" then o.allowedNew else []

namespace ToolCall

/-- The call to the tool of a checker. -/
def forChecker (c : ToolCall) (id : String) : ToolCall :=
  { c with options := c.options.takenBy id }

/-- The call to the tool for all checkers, of which the experimental ones take part. -/
def forAll (c : ToolCall) : ToolCall :=
  { c with options := { c.options with includeExperimental := true } }

/-- What a checker is given for the call. -/
def audit (c : ToolCall) (settings : Settings) (project : Project) : Audit :=
  ⟨c.plan, project, settings.checkOptions c.options⟩

end ToolCall

section SameCall

variable (c : ToolCall) (settings : Settings) (project : Project)

/-- A checker makes the same of the call to its own tool and of that to the tool for all. -/
theorem run_forChecker {x : Checker} (hx : x ∈ builtinCheckers) :
    x.run ((c.forChecker x.id).audit settings project) =
      x.run (c.forAll.audit settings project) := by
  simp only [builtinCheckers, List.mem_cons, List.not_mem_nil, or_false] at hx
  rcases hx with rfl | rfl | rfl | rfl | rfl | rfl | rfl | rfl | rfl | rfl
  all_goals rfl

end SameCall

/-! ## One run of all checkers -/

/-- What a checker finds in a run of its own. -/
def foundBy (audit : Audit) (cache : Packages.ApiCache) (x : Checker) : Run :=
  ⟨x.id, x.displayName, (runChecker x audit cache).1⟩

section Runs

variable (audit : Audit) (cache : Packages.ApiCache)

/-- Checkers that leave what is remembered alone find the same in one run as each of its own. -/
theorem runAll_concat {front : List Checker}
    (hfront : ∀ x ∈ front, (runChecker x audit cache).2 = cache) (last : Checker) :
    runAll audit (front ++ [last]) cache =
      ((front ++ [last]).map (foundBy audit cache), (runChecker last audit cache).2) := by
  induction front with
  | nil => rfl
  | cons x front ih =>
    have hx := hfront x List.mem_cons_self
    rw [List.cons_append, runAll]
    simp only [hx, ih fun y hy => hfront y (List.mem_cons_of_mem x hy)]
    rfl

theorem snd_runChecker (x : Checker) : (runChecker x audit cache).2 = (x.run audit cache).2 := by
  unfold runChecker
  split
  · rename_i h
    rw [h]
  · rename_i h
    rw [h]

/-- Only the last checker of the library looks at what is remembered. -/
theorem runAll_builtinCheckers :
    runAll audit builtinCheckers cache = (builtinCheckers.map (foundBy audit cache),
      (runChecker Packages.apiChecker audit cache).2) := by
  have hsplit : builtinCheckers = builtinCheckers.dropLast ++ [Packages.apiChecker] := rfl
  rw [hsplit]
  refine runAll_concat audit cache (fun x hx => ?_) _
  simp only [builtinCheckers, List.dropLast_cons_cons, List.dropLast_singleton, List.mem_cons,
    List.not_mem_nil, or_false] at hx
  rcases hx with rfl | rfl | rfl | rfl | rfl | rfl | rfl | rfl | rfl
  all_goals exact snd_runChecker audit cache _

/-- All checkers of the library take part if the experimental ones are asked for. -/
theorem enabled_builtin : Registry.builtin.enabled true = builtinCheckers := rfl

theorem get_builtin {x : Checker} (hx : x ∈ builtinCheckers) :
    Registry.builtin.get x.id = .ok x := by
  simp only [builtinCheckers, List.mem_cons, List.not_mem_nil, or_false] at hx
  rcases hx with rfl | rfl | rfl | rfl | rfl | rfl | rfl | rfl | rfl | rfl
  all_goals rfl

theorem findOut_one {x : Checker} (hx : x ∈ builtinCheckers) :
    Server.findOut (.one x.id) audit cache = .ok (toolText x (foundBy audit cache x).outcome,
      [foundBy audit cache x], (runChecker x audit cache).2) := by
  change (Registry.builtin.get x.id).map _ = _
  rw [get_builtin hx]
  rfl

theorem findOut_all (h : audit.options.includeExperimental = true) :
    Server.findOut .all audit cache =
      .ok (markdownReport audit.project.name (builtinCheckers.map (foundBy audit cache)),
        builtinCheckers.map (foundBy audit cache),
        (runChecker Packages.apiChecker audit cache).2) := by
  have hruns : runChecks .builtin audit cache = (builtinCheckers.map (foundBy audit cache),
      (runChecker Packages.apiChecker audit cache).2) := by
    rw [← runAll_builtinCheckers, ← enabled_builtin, ← h]
    rfl
  unfold Server.findOut
  simp only [hruns]

/-- The text of the tool of a checker is its section in the report. -/
theorem toolText_of_applicable {x : Checker} {r : Run} (h : r.applicable = true) :
    toolText x r.outcome = sectionText r.outcome.lines := if_pos h

end Runs

/-! ## What is said and logged -/

theorem head?_notApplicableText {x : Checker} (hx : x ∈ builtinCheckers) :
    (notApplicableText x).toList.head? ≠ some '#' := by
  simp only [builtinCheckers, List.mem_cons, List.not_mem_nil, or_false] at hx
  rcases hx with rfl | rfl | rfl | rfl | rfl | rfl | rfl | rfl | rfl | rfl
  all_goals decide

/-- The tool of a checker says that it does not apply only if it does not: a section begins with a
heading. -/
theorem toolText_eq_iff {x : Checker} (hx : x ∈ builtinCheckers) {o : Outcome} (ho : o.Headed) :
    toolText x o = notApplicableText x ↔ o.result.applicable = false := by
  unfold toolText
  cases happlies : o.result.applicable with
  | false => simp
  | true =>
    have hne : sectionText o.lines ≠ notApplicableText x := by
      intro h
      apply head?_notApplicableText hx
      rw [← h]
      exact (ho happlies).head?_sectionText
    simpa using hne

/-- The files after an entry is logged, if the settings say so. -/
def Server.logged (s : Server) (settings : Settings) (e : CatchEntry) : FileSystem :=
  if settings.logCatches then logCatch e (s.workspace.catchPlace settings) s.workspace.files
  else s.workspace.files

theorem Server.files_record (s : Server) (settings : Settings) (tool project time : String)
    (runs : List Run) : (s.record settings tool project time runs).workspace.files =
      s.logged settings (.ofRuns time tool project runs) := by
  unfold Server.record Server.logged
  split <;> rfl

/-- What the tools say of one call: `text` is what the tool of each checker answers, and `counts`
what it logs. -/
structure ToolsAgree (s : Server) (c : ToolCall) (time : String) (settings : Settings)
    (project : Project) (text : Checker → String) (counts : Checker → Option CatchCounts) :
    Prop where
  /-- The tool of a checker answers with its text and logs its counts. -/
  one : ∀ x ∈ builtinCheckers, ∃ s' runs,
    s.call (.one x.id) (c.forChecker x.id) time = .ok (text x, s') ∧
      s'.workspace.files = s.logged settings (.ofRuns time x.id project.name runs) ∧
      (CatchEntry.ofRuns time x.id project.name runs).findings.entries = [(x.id, counts x)]
  /-- The tool for all answers with the texts of the tools that do not say that their checkers do
  not apply, in order, and lists the other checkers; it logs the counts of all. -/
  all : ∃ s' runs laid,
    s.call .all c.forAll time = .ok (reportOpening project.name runs ++ laid ++
        skippedText ((builtinCheckers.filter fun x => text x = notApplicableText x).map
          (·.displayName)), s') ∧
      Laid ((builtinCheckers.filter fun x => text x ≠ notApplicableText x).map text) laid ∧
      s'.workspace.files = s.logged settings (.ofRuns time "check_all" project.name runs) ∧
      (CatchEntry.ofRuns time "check_all" project.name runs).findings.entries =
        builtinCheckers.map fun x => (x.id, counts x)
  /-- Nothing is counted exactly if the tool says that its checker does not apply. -/
  counts_iff : ∀ x ∈ builtinCheckers, counts x = none ↔ text x = notApplicableText x

section Calls

variable {s : Server} {settings : Settings} {project : Project}

theorem call_eq_of_found {c : ToolCall} (hproject : s.workspace.project c.project = .ok project)
    (hsettings : s.workspace.settings [] = .ok settings) {tool : Tool} {answer : String}
    {runs : List Run} {cache : Packages.ApiCache}
    (hfound : Server.findOut tool (c.audit settings project) s.cache = .ok (answer, runs, cache))
    (time : String) :
    ∃ s', s.call tool c time = .ok (answer, s') ∧
      s'.workspace.files = s.logged settings (.ofRuns time tool.logName project.name runs) := by
  refine ⟨_, ?_, Server.files_record { s with cache := cache } settings _ _ _ _⟩
  unfold Server.call
  rw [hproject]
  exact bind_eq_ok_iff.mpr ⟨settings, hsettings, map_eq_ok_iff.mpr ⟨_, hfound, rfl⟩⟩

/-- The entry of runs with distinct identifiers lists what each of them caught. -/
theorem entries_findings_ofRuns {time tool name : String} {runs : List Run}
    (h : (runs.map (·.id)).Nodup) : (CatchEntry.ofRuns time tool name runs).findings.entries =
      runs.map fun r => (r.id, CatchCounts.ofResult? r.result) := by
  refine Catalog.entries_ofList ?_
  rwa [List.map_map]

theorem ofResult?_eq_none_iff {r : Result} :
    CatchCounts.ofResult? r = none ↔ r.applicable = false := by
  unfold CatchCounts.ofResult?
  cases r.applicable <;> simp

end Calls

/-! ## All tools -/

section Found

variable (c : ToolCall) (settings : Settings) (project : Project) (cache : Packages.ApiCache)

/-- What the run of a checker finds in a call. -/
def ToolCall.found (x : Checker) : Run := foundBy (c.forAll.audit settings project) cache x

theorem foundBy_forChecker {x : Checker} (hx : x ∈ builtinCheckers) :
    foundBy ((c.forChecker x.id).audit settings project) cache x =
      c.found settings project cache x := by
  unfold ToolCall.found foundBy runChecker
  rw [run_forChecker c settings project hx]

/-- The text that the tool of a checker answers. -/
def ToolCall.text (x : Checker) : String := toolText x (c.found settings project cache x).outcome

/-- What the tool of a checker counts. -/
def ToolCall.counts (x : Checker) : Option CatchCounts :=
  CatchCounts.ofResult? (c.found settings project cache x).result

theorem headed_found {x : Checker} (hx : x ∈ builtinCheckers) :
    (c.found settings project cache x).outcome.Headed := headed_runChecker hx _ _

/-- A checker applied exactly if its tool does not say otherwise. -/
theorem text_eq_iff {x : Checker} (hx : x ∈ builtinCheckers) :
    c.text settings project cache x = notApplicableText x ↔
      (c.found settings project cache x).applicable = false :=
  toolText_eq_iff hx (headed_found c settings project cache hx)

/-- The sections of the report are the texts of the tools whose checkers applied. -/
theorem map_sectionText_applicableRuns :
    (applicableRuns (builtinCheckers.map (c.found settings project cache))).map
        (fun r => sectionText r.outcome.lines) =
      (builtinCheckers.filter fun x => c.text settings project cache x ≠ notApplicableText x).map
        (c.text settings project cache) := by
  have hfilter : builtinCheckers.filter
      (fun x => c.text settings project cache x ≠ notApplicableText x) =
        builtinCheckers.filter fun x => (c.found settings project cache x).applicable := by
    refine List.filter_congr fun x hx => ?_
    simp [text_eq_iff c settings project cache hx]
  rw [hfilter, applicableRuns, List.filter_map, List.map_map]
  refine List.map_congr_left fun x hx => ?_
  exact (toolText_of_applicable (List.mem_filter.mp hx).2).symm

theorem skippedNames_found :
    skippedNames (builtinCheckers.map (c.found settings project cache)) =
      (builtinCheckers.filter fun x => c.text settings project cache x = notApplicableText x).map
        (·.displayName) := by
  rw [skippedNames, List.filter_map, List.map_map]
  have hfilter : builtinCheckers.filter
      ((fun r : Run => !r.applicable) ∘ c.found settings project cache) =
        builtinCheckers.filter fun x => c.text settings project cache x = notApplicableText x := by
    refine List.filter_congr fun x hx => ?_
    simp [text_eq_iff c settings project cache hx]
  rw [hfilter]
  rfl

theorem toolsAgree_of_ok (s : Server) (time : String)
    (hproject : s.workspace.project c.project = .ok project)
    (hsettings : s.workspace.settings [] = .ok settings) :
    ToolsAgree s c time settings project (c.text settings project s.cache)
      (c.counts settings project s.cache) where
  one := by
    intro x hx
    have hfound := findOut_one ((c.forChecker x.id).audit settings project) s.cache hx
    rw [foundBy_forChecker c settings project s.cache hx] at hfound
    have hproject' : s.workspace.project (c.forChecker x.id).project = .ok project := hproject
    obtain ⟨s', hcall, hlogged⟩ := call_eq_of_found hproject' hsettings hfound time
    exact ⟨s', _, hcall, hlogged, entries_findings_ofRuns (List.nodup_singleton _)⟩
  all := by
    have hfound := findOut_all (c.forAll.audit settings project) s.cache rfl
    have hproject' : s.workspace.project c.forAll.project = .ok project := hproject
    obtain ⟨s', hcall, hlogged⟩ := call_eq_of_found hproject' hsettings hfound time
    have hheaded : ∀ r ∈ builtinCheckers.map (c.found settings project s.cache),
        r.outcome.Headed := by
      intro r hr
      obtain ⟨x, hx, rfl⟩ := List.mem_map.mp hr
      exact headed_found c settings project s.cache hx
    have hne : builtinCheckers.map (c.found settings project s.cache) ≠ [] := List.cons_ne_nil _ _
    obtain ⟨laid, hlaid, hreport⟩ := exists_laid_markdownReport hne hheaded project.name
    rw [map_sectionText_applicableRuns] at hlaid
    rw [skippedNames_found] at hreport
    refine ⟨s', builtinCheckers.map (c.found settings project s.cache), laid, ?_, hlaid, hlogged,
      ?_⟩
    · rw [← hreport]
      exact hcall
    · have hids : (builtinCheckers.map (c.found settings project s.cache)).map (·.id) =
          builtinCheckers.map (·.id) := List.map_map
      rw [entries_findings_ofRuns (hids ▸ Registry.builtin.nodup), List.map_map]
      rfl
  counts_iff := by
    intro x hx
    rw [text_eq_iff c settings project s.cache hx]
    exact ofResult?_eq_none_iff

end Found

/-- **The tools agree** on every call, whatever is remembered of packages: where the project is
missing or the settings are refused, all of them fail alike. -/
theorem tools_agree (s : Server) (c : ToolCall) (time : String) :
    match s.workspace.project c.project, s.workspace.settings [] with
    | .error missing, _ =>
      (∀ x ∈ builtinCheckers, s.call (.one x.id) (c.forChecker x.id) time =
        .ok ("Error: " ++ missing.message, s)) ∧
      s.call .all c.forAll time = .ok ("Error: " ++ missing.message, s)
    | .ok _, .error fault =>
      (∀ x ∈ builtinCheckers, s.call (.one x.id) (c.forChecker x.id) time = .error fault) ∧
      s.call .all c.forAll time = .error fault
    | .ok project, .ok settings =>
      ∃ text counts, ToolsAgree s c time settings project text counts := by
  cases hproject : s.workspace.project c.project with
  | error missing =>
    have hcall (tool : Tool) (options : CallOptions) :
        s.call tool { c with options := options } time = .ok ("Error: " ++ missing.message, s) := by
      unfold Server.call
      rw [hproject]
    exact ⟨fun x _ => hcall _ _, hcall _ _⟩
  | ok project =>
    cases hsettings : s.workspace.settings [] with
    | error fault =>
      have hcall (tool : Tool) (options : CallOptions) :
          s.call tool { c with options := options } time = .error fault := by
        unfold Server.call
        rw [hproject]
        exact bind_eq_error hsettings _
      exact ⟨fun x _ => hcall _ _, hcall _ _⟩
    | ok settings => exact ⟨_, _, toolsAgree_of_ok c settings project s time hproject hsettings⟩

end PlanAudit
