import PlanAudit.Proofs.Checker.Runs
import PlanAudit.Proofs.Report.Agreement
import PlanAudit.Proofs.Routes.Instances
import PlanAudit.Tools

/-!
# The sections of the report

The report joins the lines of all checkers that applied before it strips white space at the end,
while a tool strips the lines of its own checker.  What one of them strips the other may keep, so
that a section of the report is the text of the tool up to white space.  It is no more than that,
because the lines of every checker begin with a heading: nothing is stripped in front of it.

## Main definitions

* `Headed`: lines that begin with a heading
* `IsGap`, `Laid`: texts one after the other, each followed by white space that ends a line
* `reportOpening`, `skippedLines`: what the report has in front of the sections and behind them

## Main results

* `headed_runChecker`: the lines of every checker that applied begin with a heading
* `exists_laid_markdownReport`: the report is made of the sections of the checkers that applied
-/

namespace PlanAudit

open Text

/-! ## Headings -/

/-- The lines begin with a heading. -/
def Headed (lines : List String) : Prop :=
  ∃ heading rest, lines = heading :: rest ∧ stringBegins "## " heading = true

/-- The lines of an outcome that applied begin with a heading. -/
def Outcome.Headed (o : Outcome) : Prop := o.result.applicable = true → PlanAudit.Headed o.lines

theorem Outcome.headed_notApplicable (id : String) : (Outcome.notApplicable id).Headed :=
  fun happlies => nomatch happlies

theorem Outcome.headed_ofReferences {id : String} {refs : List Reference}
    {lines : Result → List String} {excerpt : Result → Option String} {o : Outcome}
    (hlines : ∀ r, PlanAudit.Headed (lines r))
    (h : Outcome.ofReferences id refs lines excerpt = .ok o) : o.Headed := by
  obtain ⟨result, -, rfl⟩ := map_eq_ok_iff.mp h
  exact fun _ => hlines result

theorem Outcome.headed_of_ite {p : Prop} [Decidable p] {id : String}
    {judged : Except Fault Outcome} {o : Outcome} (hjudged : judged = .ok o → o.Headed)
    (h : (if p then .ok (.notApplicable id) else judged) = .ok o) : o.Headed := by
  split at h
  · obtain rfl := Except.ok.inj h
    exact Outcome.headed_notApplicable id
  · exact hjudged h

/-- A checker makes nothing but outcomes whose lines begin with a heading. -/
def Checker.Headed (c : Checker) : Prop :=
  ∀ audit cache o, (c.run audit cache).1 = .ok o → o.Headed

theorem headed_cons {title : String} {rest : List String}
    (h : stringBegins "## " title = true) : Headed (title :: rest) :=
  ⟨title, rest, rfl, h⟩

/-! ### The checkers of the library -/

theorem Paths.headed_checker : Paths.checker.Headed := by
  intro audit cache o h
  obtain ⟨tree, -, ho⟩ := bind_eq_ok_iff.mp h
  exact Outcome.headed_ofReferences (fun _ => headed_cons (by decide)) ho

theorem Prisma.headed_checker : Prisma.checker.Headed := by
  intro audit cache o h
  simp only [checker, Checker.ofPure] at h
  split at h
  · obtain rfl := Except.ok.inj h
    exact Outcome.headed_notApplicable _
  · exact Outcome.headed_ofReferences (fun _ => headed_cons (by decide)) h

theorem Sql.headed_checker : Sql.checker.Headed := by
  intro audit cache o h
  obtain ⟨tree, -, ho⟩ := bind_eq_ok_iff.mp h
  refine Outcome.headed_of_ite (fun hjudged => ?_) ho
  exact Outcome.headed_ofReferences (fun _ => headed_cons (by decide)) hjudged

theorem Packages.headed_importChecker : Packages.importChecker.Headed := by
  intro audit cache o h
  refine Outcome.headed_of_ite (fun hjudged => ?_) h
  obtain ⟨refs, -, ho⟩ := bind_eq_ok_iff.mp hjudged
  exact Outcome.headed_ofReferences (fun _ => headed_cons (by decide)) ho

theorem Env.headed_checker : Env.checker.Headed := by
  intro audit cache o h
  refine Outcome.headed_of_ite (fun hjudged => ?_) h
  exact Outcome.headed_ofReferences (fun _ => headed_cons (by decide)) hjudged

theorem Types.headed_checker : Types.checker.Headed := by
  intro audit cache o h
  obtain ⟨tree, -, ho⟩ := bind_eq_ok_iff.mp h
  refine Outcome.headed_of_ite (fun hjudged => ?_) ho
  exact Outcome.headed_ofReferences (fun _ => headed_cons (by decide)) hjudged

theorem Routes.headed_appChecker : Routes.appChecker.Headed := by
  intro audit cache o h
  obtain ⟨tree, -, ho⟩ := bind_eq_ok_iff.mp h
  refine Outcome.headed_of_ite (fun hjudged => ?_) ho
  exact Outcome.headed_ofReferences (fun _ => headed_cons (stringBegins_append _ _)) hjudged

theorem Supabase.headed_checker : Supabase.checker.Headed := by
  intro audit cache o h
  obtain ⟨tree, -, ho⟩ := bind_eq_ok_iff.mp h
  simp only at ho
  split at ho
  · obtain rfl := Except.ok.inj ho
    exact Outcome.headed_notApplicable _
  · exact Outcome.headed_ofReferences (fun _ => headed_cons (by decide)) ho

theorem Routes.headed_callChecker : Routes.callChecker.Headed := by
  intro audit cache o h
  obtain ⟨tree, -, ho⟩ := bind_eq_ok_iff.mp h
  obtain ⟨index, -, ho⟩ := bind_eq_ok_iff.mp ho
  refine Outcome.headed_of_ite (fun hjudged => ?_) ho
  exact Outcome.headed_ofReferences (fun _ => headed_cons (stringBegins_append _ _)) hjudged

theorem Packages.headed_apiChecker : Packages.apiChecker.Headed := by
  intro audit cache o h
  simp only [apiChecker] at h
  split at h
  · obtain rfl := Except.ok.inj h
    exact Outcome.headed_notApplicable _
  · obtain ⟨apis, -, ho⟩ := bind_eq_ok_iff.mp h
    refine Outcome.headed_of_ite (fun hjudged => ?_) ho
    exact Outcome.headed_ofReferences (fun _ => headed_cons (by decide)) hjudged

theorem headed_of_mem_builtinCheckers {c : Checker} (h : c ∈ builtinCheckers) : c.Headed := by
  simp only [builtinCheckers, List.mem_cons, List.not_mem_nil, or_false] at h
  rcases h with rfl | rfl | rfl | rfl | rfl | rfl | rfl | rfl | rfl | rfl
  · exact Paths.headed_checker
  · exact Prisma.headed_checker
  · exact Sql.headed_checker
  · exact Packages.headed_importChecker
  · exact Env.headed_checker
  · exact Types.headed_checker
  · exact Routes.headed_appChecker
  · exact Supabase.headed_checker
  · exact Routes.headed_callChecker
  · exact Packages.headed_apiChecker

/-- Whatever a checker of the library found, its lines begin with a heading if it applied. -/
theorem headed_runChecker {c : Checker} (h : c ∈ builtinCheckers) (audit : Audit)
    (cache : Packages.ApiCache) : (runChecker c audit cache).1.Headed := by
  unfold runChecker
  split
  · rename_i o _ hrun
    exact headed_of_mem_builtinCheckers h audit cache o (by rw [hrun])
  · exact Outcome.headed_notApplicable c.id

/-! ## White space at the end -/

/-- White space that ends a line. -/
structure IsGap (gap : String) : Prop where
  blank : ∀ c ∈ gap.toList, isBlank c = true
  ends : stringEnds "\n" gap = true

/-- The texts stand one after the other, each followed by white space that ends a line. -/
inductive Laid : List String → String → Prop where
  | nil : Laid [] ""
  | cons {text gap rest : String} {texts : List String} (hgap : IsGap gap)
    (hrest : Laid texts rest) : Laid (text :: texts) (text ++ gap ++ rest)

theorem isGap_append {gap : String} (h : ∀ c ∈ gap.toList, isBlank c = true) :
    IsGap (gap ++ "\n") where
  blank := by
    intro c hc
    rw [String.toList_append, List.mem_append] at hc
    rcases hc with hc | hc
    · exact h c hc
    · rw [List.mem_singleton.mp hc]
      decide
  ends := by
    rw [stringEnds, endsWith, List.isSuffixOf_iff_suffix, String.toList_append]
    exact List.suffix_append _ _

/-- Nothing is stripped in front of a text that begins with something else than white space. -/
theorem stripEnd_append_of_head {text more : List Char}
    (h : ∃ c ∈ more.head?, isBlank c = false) :
    stripEnd (text ++ more) = text ++ stripEnd more := by
  obtain ⟨c, hc, hblank⟩ := h
  obtain ⟨rest, rfl⟩ : ∃ rest, more = c :: rest := ⟨_, List.eq_cons_of_mem_head? hc⟩
  have hmore : stripEnd (c :: rest) = c :: stripEnd rest := stripEnd_append (a := []) hblank
  rw [hmore, List.append_cons text c rest, stripEnd_append hblank, ← List.append_cons]

/-! ## Sections -/

/-- Joined lines that begin with something else than white space. -/
def Opens (lines : List String) : Prop :=
  ∃ c ∈ ("\n".intercalate lines).toList.head?, isBlank c = false

theorem mem_head?_intercalate {line : String} {c : Char} (hc : c ∈ line.toList.head?)
    (rest : List String) : c ∈ ("\n".intercalate (line :: rest)).toList.head? := by
  obtain ⟨more, hline⟩ : ∃ more, line.toList = c :: more := ⟨_, List.eq_cons_of_mem_head? hc⟩
  cases rest with
  | nil => rw [String.intercalate_singleton]; exact hc
  | cons next rest =>
    rw [String.intercalate_cons_cons, String.toList_append, String.toList_append, hline]
    rfl

theorem Headed.mark_mem {lines : List String} (h : Headed lines) (more : List String) :
    '#' ∈ ("\n".intercalate (lines ++ more)).toList.head? := by
  obtain ⟨heading, rest, rfl, hbegins⟩ := h
  rw [stringBegins, beginsWith, List.isPrefixOf_iff_prefix] at hbegins
  obtain ⟨title, htitle⟩ := hbegins
  refine mem_head?_intercalate ?_ _
  rw [← htitle]
  rfl

theorem Headed.opens {lines : List String} (h : Headed lines) (more : List String) :
    Opens (lines ++ more) :=
  ⟨'#', h.mark_mem more, by decide⟩

/-- A section begins with the mark of its heading. -/
theorem Headed.head?_sectionText {lines : List String} (h : Headed lines) :
    (sectionText lines).toList.head? = some '#' := by
  have hmark := h.mark_mem []
  rw [List.append_nil] at hmark
  obtain ⟨rest, hrest⟩ : ∃ rest, ("\n".intercalate lines).toList = '#' :: rest :=
    ⟨_, List.eq_cons_of_mem_head? hmark⟩
  have hkept : stripEnd ('#' :: rest) = '#' :: stripEnd rest :=
    stripEnd_append (a := []) (by decide)
  rw [sectionText, String.toList_ofList, hrest, hkept]
  rfl

/-- Of two groups of lines only the second is stripped. -/
theorem sectionText_append {lines more : List String} (hne : lines ≠ []) (hmore : Opens more) :
    sectionText (lines ++ more) = "\n".intercalate lines ++ "\n" ++ sectionText more := by
  have hmore_ne : more ≠ [] := by
    rintro rfl
    obtain ⟨c, hc, -⟩ := hmore
    cases hc
  rw [sectionText, String.intercalate_append_of_ne_nil hne hmore_ne, String.toList_append,
    stripEnd_append_of_head hmore, ← String.toList_inj]
  simp only [sectionText, String.toList_append, String.toList_ofList]

/-- A group of lines is its own text and white space. -/
theorem exists_intercalate_eq_sectionText (lines : List String) : ∃ stripped : String,
    "\n".intercalate lines = sectionText lines ++ stripped ∧
      ∀ c ∈ stripped.toList, isBlank c = true := by
  obtain ⟨stripped, htext, hblank⟩ := exists_stripEnd_append ("\n".intercalate lines).toList
  refine ⟨String.ofList stripped, ?_, by rwa [String.toList_ofList]⟩
  rw [← String.toList_inj, sectionText, String.toList_append, String.toList_ofList,
    String.toList_ofList, ← htext]

/-- The line that lists the checkers that did not apply. -/
def skippedLines (skipped : List String) : List String :=
  if skipped.isEmpty then [] else ["_Not applicable: " ++ commaList skipped ++ "_"]

/-- The end of the report: the line that lists the checkers that did not apply. -/
def skippedText (skipped : List String) : String :=
  if skipped.isEmpty then "" else "_Not applicable: " ++ commaList skipped ++ "_\n"

section Skipped

variable {skipped : List String}

theorem skippedLines_of_ne_nil (h : skipped ≠ []) :
    skippedLines skipped = ["_Not applicable: " ++ commaList skipped ++ "_"] :=
  if_neg fun hnil => h (List.isEmpty_iff.mp hnil)

theorem opens_skippedLines (h : skipped ≠ []) : Opens (skippedLines skipped) := by
  rw [skippedLines_of_ne_nil h]
  refine ⟨'_', mem_head?_intercalate ?_ [], by decide⟩
  rw [String.append_assoc, String.toList_append]
  rfl

/-- The line ends in no white space. -/
theorem sectionText_skippedLines (h : skipped ≠ []) :
    sectionText (skippedLines skipped) ++ "\n" = skippedText skipped := by
  have hline (line : String) : sectionText [line ++ "_"] = line ++ "_" := by
    have hlast := stripEnd_append (a := line.toList) (b := []) (x := '_') (by decide)
    rw [List.append_nil] at hlast
    rw [sectionText, String.intercalate_singleton, String.toList_append]
    exact (congrArg String.ofList hlast).trans (by rw [← String.toList_inj]; simp; rfl)
  have hend : "_\n" = "_" ++ "\n" := by decide
  rw [skippedLines_of_ne_nil h, hline, skippedText, if_neg (by simpa using h), hend,
    ← String.append_assoc]

end Skipped

/-- What stands behind the first of several groups of lines, if anything does, begins with something
else than white space. -/
theorem opens_flatten_append {groups : List (List String)} (hheaded : ∀ g ∈ groups, Headed g)
    {skipped : List String} (hne : groups ≠ [] ∨ skipped ≠ []) :
    Opens (groups.flatten ++ skippedLines skipped) := by
  cases groups with
  | nil => exact opens_skippedLines (hne.resolve_left fun h => h rfl)
  | cons g groups =>
    rw [List.flatten_cons, List.append_assoc]
    exact (hheaded g List.mem_cons_self).opens _

/-- Groups of lines that begin with headings, and what was skipped, are laid one after the other. -/
theorem exists_laid_sectionText {groups : List (List String)} (hheaded : ∀ g ∈ groups, Headed g)
    {skipped : List String} (hne : groups ≠ [] ∨ skipped ≠ []) :
    ∃ laid, Laid (groups.map sectionText) laid ∧
      sectionText (groups.flatten ++ skippedLines skipped) ++ "\n" =
        laid ++ skippedText skipped := by
  induction groups with
  | nil =>
    refine ⟨"", .nil, ?_⟩
    rw [List.flatten_nil, List.nil_append, String.empty_append,
      sectionText_skippedLines (hne.resolve_left fun h => h rfl)]
  | cons lines groups ih =>
    have hlines := hheaded lines List.mem_cons_self
    have hrest : ∀ g ∈ groups, Headed g := fun g hg => hheaded g (List.mem_cons_of_mem lines hg)
    have hlines_ne : lines ≠ [] := by
      obtain ⟨heading, rest, rfl, -⟩ := hlines
      exact List.cons_ne_nil heading rest
    rw [List.flatten_cons, List.append_assoc]
    by_cases hmore : groups ≠ [] ∨ skipped ≠ []
    · obtain ⟨stripped, hstripped, hblank⟩ := exists_intercalate_eq_sectionText lines
      obtain ⟨laid, hlaid, hreport⟩ := ih hrest hmore
      refine ⟨_, .cons (isGap_append hblank) hlaid, ?_⟩
      rw [sectionText_append hlines_ne (opens_flatten_append hrest hmore), hstripped,
        String.append_assoc, hreport]
      simp only [String.append_assoc]
    · -- The last of the lines: the line feed at the end of the report ends them.
      obtain ⟨rfl, rfl⟩ : groups = [] ∧ skipped = [] := by simpa [not_or] using hmore
      have hgap : IsGap ("" ++ "\n") := isGap_append (by simp)
      refine ⟨_, .cons hgap .nil, ?_⟩
      simp [skippedLines, skippedText]

/-! ## The report -/

/-- What the report has in front of the sections. -/
def reportOpening (project : String) (runs : List Run) : String :=
  "# Static Analysis Report\n\n" ++ summaryLine project runs ++ "\n\n"

theorem intercalate_opening (summary : String) :
    "\n".intercalate ["# Static Analysis Report", "", summary, ""] ++ "\n" =
      "# Static Analysis Report\n\n" ++ summary ++ "\n\n" := by
  have hfirst : "# Static Analysis Report\n\n" =
      "# Static Analysis Report" ++ ("\n" ++ ("" ++ "\n")) := by simp
  have hlast : "\n\n" = "\n" ++ ("" ++ "\n") := by simp
  simp only [hfirst, hlast, String.intercalate_cons_cons, String.intercalate_singleton,
    String.append_assoc]

/-- **The report is made of the sections** of the checkers that applied, one after the other. -/
theorem exists_laid_markdownReport {runs : List Run} (hne : runs ≠ [])
    (hheaded : ∀ r ∈ runs, r.outcome.Headed) (project : String) :
    ∃ laid, Laid ((applicableRuns runs).map fun r => sectionText r.outcome.lines) laid ∧
      markdownReport project runs =
        reportOpening project runs ++ laid ++ skippedText (skippedNames runs) := by
  have hgroups : ∀ g ∈ (applicableRuns runs).map (·.outcome.lines), Headed g := by
    intro g hg
    obtain ⟨r, hr, rfl⟩ := List.mem_map.mp hg
    obtain ⟨hr, happlies⟩ := List.mem_filter.mp hr
    exact hheaded r hr happlies
  -- Every run applied or was skipped.
  have hsome : (applicableRuns runs).map (·.outcome.lines) ≠ [] ∨ skippedNames runs ≠ [] := by
    obtain ⟨r, hr⟩ := List.exists_mem_of_ne_nil runs hne
    cases happlies : r.applicable with
    | true =>
      exact Or.inl (List.ne_nil_of_mem (List.mem_map_of_mem (List.mem_filter.mpr ⟨hr, happlies⟩)))
    | false =>
      refine Or.inr (List.ne_nil_of_mem (List.mem_map_of_mem (List.mem_filter.mpr ⟨hr, ?_⟩)))
      rw [happlies]
      rfl
  obtain ⟨laid, hlaid, htext⟩ := exists_laid_sectionText hgroups hsome
  rw [List.map_map] at hlaid
  refine ⟨laid, hlaid, ?_⟩
  have hreport : markdownReport project runs = sectionText
      (["# Static Analysis Report", "", summaryLine project runs, ""] ++
        (((applicableRuns runs).map (·.outcome.lines)).flatten ++
          skippedLines (skippedNames runs))) ++ "\n" := by
    rw [← List.append_assoc, ← List.flatMap_def]
    rfl
  rw [hreport, sectionText_append (List.cons_ne_nil _ _) (opens_flatten_append hgroups hsome),
    String.append_assoc, htext, intercalate_opening, ← String.append_assoc]
  rfl

end PlanAudit
