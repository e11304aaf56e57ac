import Mathlib
import PlanAudit.Catches.Log
import PlanAudit.Proofs.Catalog
import PlanAudit.Proofs.Checker.Runs
import PlanAudit.Proofs.Files.Append
import PlanAudit.Proofs.Text.Words
import PlanAudit.Report.Machine
import PlanAudit.Report.Markdown
import PlanAudit.Report.Text

/-!
# The reports agree

There are six ways in which the result of some runs leaves the library: the list of findings, the
JSON report, the entry of the catch log, the markdown report, the table, and the excerpt for a
reviewer.  Some count what the checkers counted and some what they list, some count all runs and
some only those that applied.  For sound runs this makes no difference.

## Main definitions

* `Json.at?`: the value at the end of a path of names
* `CatchEntry.itemCount`: the number of texts that an entry lists
* `ReportsAgree`: what the reports of some runs have in common

## Main results

* `reportsAgree_of_sound`: the reports of sound runs agree
* `reportsAgree_runChecks`: so do those of the checkers of the library
-/

namespace PlanAudit

open Text

/-! ## What the reports say -/

/-- The value that is reached from a JSON value along the names. -/
def Json.at? (j : Json) (names : List String) : Option Json :=
  names.foldl (fun j name => j.bind (·.member? name)) (some j)

/-- The number of texts that an entry lists for all checkers together. -/
def CatchEntry.itemCount (e : CatchEntry) : Nat :=
  (e.findings.values.map fun c => (c.map (·.items.length)).getD 0).sum

/-- How the markdown report begins, given the name of the project and the number of references. -/
def markdownOpening (project : String) (checked : Nat) : String :=
  "# Static Analysis Report\n\n**Project:** " ++ code project ++ " | " ++ bold checked ++
    " references checked"

/-- How the table ends if nothing was found. -/
def verifiedEnding : String := "\n  0 finding(s). All references verified.\n"

/-- What the reports of some runs have in common: one number of findings, one number of references,
and one answer to the question whether anything was found. -/
structure ReportsAgree (project timestamp tool : String) (runs : List Run) : Prop where
  /-- The findings are as many as the checkers counted. -/
  findings_length : (findings runs).length = totalFindings runs
  /-- The JSON report states the number of findings. -/
  json_total : (jsonReport project timestamp runs).at? ["summary", "totalFindings"] =
    some (.ofNat (totalFindings runs))
  /-- The JSON report lists as many. -/
  json_length : (((jsonReport project timestamp runs).at? ["findings"]).bind Json.items?).map
    List.length = some (totalFindings runs)
  /-- The entry of the catch log states the same number. -/
  entry_total : (CatchEntry.ofRuns timestamp tool project runs).totalHallucinated =
    totalFindings runs
  /-- The entry of the catch log lists as many texts. -/
  entry_items : (CatchEntry.ofRuns timestamp tool project runs).itemCount = totalFindings runs
  /-- The JSON report counts the references that the markdown report counts. -/
  json_checked : (jsonReport project timestamp runs).at? ["summary", "totalChecked"] =
    some (.ofNat (totalChecked (applicableRuns runs)))
  /-- So does the entry of the catch log. -/
  entry_checked : (CatchEntry.ofRuns timestamp tool project runs).totalChecked =
    totalChecked (applicableRuns runs)
  /-- The markdown report begins with that number. -/
  markdown_checked : stringBegins
    (markdownOpening project (totalChecked (applicableRuns runs))) (markdownReport project runs) =
      true
  /-- The command line succeeds exactly if nothing was found. -/
  exit_iff : exitCode runs = 0 ↔ totalFindings runs = 0
  /-- There is nothing to show to a reviewer exactly if nothing was found. -/
  context_iff : findingsContext runs = "" ↔ totalFindings runs = 0
  /-- The table says that all is verified exactly if nothing was found. -/
  text_iff : stringEnds verifiedEnding (textReport runs) = true ↔ totalFindings runs = 0
  /-- No catch log is ever changed exactly if nothing was found. -/
  log_iff : (∀ log files, logCatch (.ofRuns timestamp tool project runs) log files = files) ↔
    totalFindings runs = 0
  /-- If something was found, the catch log is changed exactly if it can be written. -/
  logged_iff : totalFindings runs ≠ 0 → ∀ log files,
    logCatch (.ofRuns timestamp tool project runs) log files ≠ files ↔
      files.append? log (catchLine (.ofRuns timestamp tool project runs)) ≠ none

/-! ## Counts -/

section Counts

variable {runs : List Run}

theorem total_eq_sum (count : Result → Nat) (runs : List Run) :
    total count runs = (runs.map fun r => count r.result).sum := by
  induction runs with
  | nil => rfl
  | cons r rest ih => rw [total, List.foldr_cons, ← total, ih, List.map_cons, List.sum_cons]

/-- What only runs that applied count is the same for all runs. -/
theorem total_applicableRuns {count : Result → Nat}
    (h : ∀ r ∈ runs, r.applicable = false → count r.result = 0) :
    total count (applicableRuns runs) = total count runs := by
  rw [total_eq_sum, total_eq_sum]
  induction runs with
  | nil => rfl
  | cons r rest ih =>
    have hrest := ih fun s hs => h s (List.mem_cons_of_mem r hs)
    rw [List.map_cons, List.sum_cons, ← hrest, applicableRuns, List.filter_cons]
    -- A run that did not apply is left out, and it counts nothing.
    by_cases happlies : r.applicable = true
    · rw [if_pos happlies, List.map_cons, List.sum_cons]
      rfl
    · have hzero := h r List.mem_cons_self (Bool.eq_false_iff.mpr happlies)
      rw [if_neg happlies, hzero, Nat.zero_add]
      rfl

variable (hsound : ∀ r ∈ runs, r.outcome.Sound)

include hsound

theorem total_hallucinated : total (·.hallucinated) runs = totalFindings runs := by
  refine (total_applicableRuns fun r hr happlies => ?_).symm
  rw [Run.result, (hsound r hr).hallucinated_eq, (hsound r hr).hallucinations_eq happlies]
  rfl

theorem totalChecked_eq : totalChecked runs = totalChecked (applicableRuns runs) :=
  (total_applicableRuns fun r hr happlies => (hsound r hr).checked_eq happlies).symm

theorem sum_hallucinations :
    (runs.map fun r => r.result.hallucinations.length).sum = totalFindings runs := by
  rw [← total_hallucinated hsound, total_eq_sum]
  refine congrArg List.sum (List.map_congr_left fun r hr => ?_)
  exact (hsound r hr).hallucinated_eq.symm

theorem length_findings : (findings runs).length = totalFindings runs := by
  rw [findings, List.length_flatMap, totalFindings, total_eq_sum]
  refine congrArg List.sum (List.map_congr_left fun r hr => ?_)
  rw [List.length_map]
  exact (hsound r (List.mem_filter.mp hr).1).hallucinated_eq.symm

/-- Nothing was found exactly if no run that applied lists anything. -/
theorem totalFindings_eq_zero_iff :
    totalFindings runs = 0 ↔ ∀ r ∈ applicableRuns runs, r.result.hallucinations = [] := by
  rw [← length_findings hsound, List.length_eq_zero_iff, findings, List.flatMap_eq_nil_iff]
  refine forall₂_congr fun r hr => ?_
  rw [List.map_eq_nil_iff]

end Counts

/-! ## The entry of the catch log -/

theorem entry_total_eq {project timestamp tool : String} {runs : List Run}
    (hsound : ∀ r ∈ runs, r.outcome.Sound) :
    (CatchEntry.ofRuns timestamp tool project runs).totalHallucinated = totalFindings runs :=
  congrArg Nat.cast (total_hallucinated hsound)

theorem itemCount_ofRuns {project timestamp tool : String} {runs : List Run}
    (hids : (runs.map (·.id)).Nodup) (hsound : ∀ r ∈ runs, r.outcome.Sound) :
    (CatchEntry.ofRuns timestamp tool project runs).itemCount = totalFindings runs := by
  have hnames : ((runs.map fun r => (r.id, CatchCounts.ofResult? r.result)).map
      Prod.fst).Nodup := by
    rw [List.map_map]
    exact hids
  rw [CatchEntry.itemCount, CatchEntry.ofRuns, Catalog.values, Catalog.entries_ofList hnames,
    List.map_map, List.map_map, ← sum_hallucinations hsound]
  refine congrArg List.sum (List.map_congr_left fun r hr => ?_)
  simp only [Function.comp, CatchCounts.ofResult?]
  -- A run that did not apply has no texts in the entry, and none in its outcome.
  split
  · rw [Option.map_some, Option.getD_some, List.length_map]
  · rename_i happlies
    rw [Run.result, (hsound r hr).hallucinations_eq (Bool.eq_false_iff.mpr happlies)]
    rfl

section Log

variable {e : CatchEntry}

/-- An entry that rejects something is logged exactly if the log can be written. -/
theorem logCatch_ne_iff (hfound : e.totalHallucinated ≠ 0) (log : Path) (files : FileSystem) :
    logCatch e log files ≠ files ↔ files.append? log (catchLine e) ≠ none := by
  unfold logCatch
  rw [if_neg hfound]
  cases happend : files.append? log (catchLine e) with
  | none => exact iff_of_false (fun h => h rfl) fun h => h rfl
  | some files' =>
    have hline : catchLine e ≠ [] := List.append_ne_nil_of_right_ne_nil _ (by simp)
    exact iff_of_true (FileSystem.append?_ne hline happend) nofun

/-- **Nothing is ever logged** exactly of an entry that rejects nothing. -/
theorem logCatch_eq_self_iff :
    (∀ log files, logCatch e log files = files) ↔ e.totalHallucinated = 0 := by
  constructor
  · intro h
    by_contra hfound
    -- Where nothing is stored, a log could be started.
    have hwritten : FileSystem.empty.append? ["catches.jsonl"] (catchLine e) ≠ none := by
      rw [FileSystem.append?_empty (by decide)]
      exact Option.some_ne_none _
    exact (logCatch_ne_iff hfound _ _).mpr hwritten (h _ _)
  · intro hzero log files
    unfold logCatch
    rw [if_pos hzero]

end Log

/-! ## Texts -/

section Texts

/-- The end of a text is stripped behind a character that is not blank. -/
theorem stripEnd_append {a b : List Char} {x : Char} (hx : isBlank x = false) :
    stripEnd (a ++ [x] ++ b) = a ++ [x] ++ stripEnd b :=
  dropEndWhile_append fun c hc => by
    rw [List.getLast?_concat] at hc
    rwa [← Option.some.inj hc]

theorem exists_summaryLine_eq (project : String) (runs : List Run) :
    ∃ rest, summaryLine project runs = "**Project:** " ++ code project ++ " | " ++
      bold (totalChecked (applicableRuns runs)) ++ " references checked" ++ rest := by
  have hsplit : " references checked across " = " references checked" ++ " across " := by simp
  refine ⟨" across " ++ (toString (applicableRuns runs).length ++ (" checker(s) — " ++
    (bold (totalFindings runs) ++ " hallucinated"))), ?_⟩
  unfold summaryLine
  rw [hsplit]
  simp only [String.append_assoc]

theorem exists_markdownReport_eq (project : String) (runs : List Run) :
    ∃ rest, markdownReport project runs = String.ofList (stripEnd
      (markdownOpening project (totalChecked (applicableRuns runs)) ++ rest).toList) ++ "\n" := by
  obtain ⟨summary, hsummary⟩ := exists_summaryLine_eq project runs
  have hheading : "# Static Analysis Report\n\n**Project:** " =
      "# Static Analysis Report" ++ ("\n" ++ ("" ++ ("\n" ++ "**Project:** "))) := by simp
  refine ⟨"\n".intercalate (summary :: "" :: ((applicableRuns runs).flatMap (·.outcome.lines) ++
    if (skippedNames runs).isEmpty then []
    else ["_Not applicable: " ++ commaList (skippedNames runs) ++ "_"])), ?_⟩
  unfold markdownReport markdownOpening
  rw [hsummary, hheading]
  simp only [List.cons_append, List.nil_append, String.intercalate_cons_cons,
    String.append_assoc]

/-- **The markdown report begins with the number of references.** -/
theorem markdownReport_begins (project : String) (runs : List Run) :
    stringBegins (markdownOpening project (totalChecked (applicableRuns runs)))
      (markdownReport project runs) = true := by
  obtain ⟨rest, hreport⟩ := exists_markdownReport_eq project runs
  -- The opening ends with a letter, so that stripping the report leaves it alone.
  have hlast : " references checked" = " references checke" ++ "d" := by simp
  have hd : "d".toList = ['d'] := rfl
  have hopening : ∃ before, (markdownOpening project (totalChecked (applicableRuns runs))).toList =
      before ++ ['d'] := by
    unfold markdownOpening
    rw [hlast, ← String.append_assoc, String.toList_append, hd]
    exact ⟨_, rfl⟩
  obtain ⟨before, hbefore⟩ := hopening
  rw [stringBegins, beginsWith, List.isPrefixOf_iff_prefix, hreport, String.toList_append,
    String.toList_ofList, String.toList_append, hbefore, stripEnd_append (by decide),
    List.append_assoc _ (stripEnd _)]
  exact List.prefix_append _ _

theorem exists_intercalate_eq (lines : List String) (last : String) :
    ∃ before, "\n".intercalate (lines ++ ["", last, ""]) = before ++ ("\n" ++ last ++ "\n") := by
  refine ⟨"\n".intercalate (lines ++ [""]), ?_⟩
  rw [List.append_cons, String.intercalate_append_of_ne_nil (by simp) (by simp)]
  simp only [String.intercalate_cons_cons, String.intercalate_singleton, String.append_assoc,
    String.append_empty]

theorem exists_textReport_eq (runs : List Run) :
    ∃ before, textReport runs = before ++ ("\n" ++ verdict (totalFindings runs) ++ "\n") := by
  unfold textReport
  exact exists_intercalate_eq _ _

/-- **The table ends by saying that all is verified** exactly if nothing was found. -/
theorem textReport_ends_iff (runs : List Run) :
    stringEnds verifiedEnding (textReport runs) = true ↔ totalFindings runs = 0 := by
  obtain ⟨before, hreport⟩ := exists_textReport_eq runs
  rw [stringEnds, endsWith, List.isSuffixOf_iff_suffix, hreport]
  constructor
  · intro hsuffix
    by_contra hfound
    -- The two verdicts differ in the last letter.
    have hfixed : " finding(s). Fix the hallucinated references above." =
        " finding(s). Fix the hallucinated references abov" ++ "e." := by simp
    have hverified : verifiedEnding = "\n  0 finding(s). All references verifie" ++ "d.\n" := by
      simp [verifiedEnding]
    obtain ⟨rest, hrest⟩ := hsuffix
    unfold verdict at hrest
    rw [if_neg hfound, hfixed, hverified] at hrest
    simp only [String.toList_append, ← List.append_assoc] at hrest
    rw [List.append_assoc _ "e.".toList] at hrest
    have hlast := List.append_inj_right' hrest (by decide)
    exact absurd hlast (by decide)
  · intro hnone
    rw [hnone]
    exact ⟨before.toList, by rw [String.toList_append]; rfl⟩

theorem findingsContext_eq_empty_iff {runs : List Run} (hsound : ∀ r ∈ runs, r.outcome.Sound) :
    findingsContext runs = "" ↔ totalFindings runs = 0 := by
  have hexcerpts : ((applicableRuns runs).filterMap (·.outcome.excerpt)).filter (· != "") = [] ↔
      totalFindings runs = 0 := by
    rw [totalFindings_eq_zero_iff hsound, List.filter_eq_nil_iff]
    constructor
    · intro h r hr
      by_contra hrejected
      have htells := (hsound r (List.mem_filter.mp hr).1).excerpt_iff.mpr hrejected
      obtain ⟨text, htext, hne⟩ := Option.any_eq_true _ _ |>.mp htells
      exact h text (List.mem_filterMap.mpr ⟨r, hr, htext⟩) hne
    · intro h text hmem hne
      obtain ⟨r, hr, htext⟩ := List.mem_filterMap.mp hmem
      have htells : r.outcome.excerpt.any (· != "") = true := by
        rw [htext]
        exact hne
      exact (hsound r (List.mem_filter.mp hr).1).excerpt_iff.mp htells (h r hr)
  unfold findingsContext
  simp only
  -- With an excerpt there is a heading above it.
  split
  · rename_i hempty
    exact iff_of_true rfl (hexcerpts.mp (List.isEmpty_iff.mp hempty))
  · rename_i hsome
    refine iff_of_false (fun h => ?_) fun h => hsome (List.isEmpty_iff.mpr (hexcerpts.mpr h))
    have hnil := congrArg String.toList h
    rw [String.toList_append] at hnil
    exact absurd (List.append_eq_nil_iff.mp hnil).2 (by decide)

end Texts

/-! ## Agreement -/

/-- **The reports of sound runs agree.** -/
theorem reportsAgree_of_sound {project timestamp tool : String} {runs : List Run}
    (hids : (runs.map (·.id)).Nodup) (hsound : ∀ r ∈ runs, r.outcome.Sound) :
    ReportsAgree project timestamp tool runs where
  findings_length := length_findings hsound
  json_total := rfl
  json_length := by
    have hitems : ((jsonReport project timestamp runs).at? ["findings"]).bind Json.items? =
        some ((findings runs).map Finding.json) := rfl
    rw [hitems, Option.map_some, List.length_map, length_findings hsound]
  entry_total := entry_total_eq hsound
  entry_items := itemCount_ofRuns hids hsound
  json_checked := congrArg (fun n => some (Json.ofNat n)) (totalChecked_eq hsound)
  entry_checked := congrArg Nat.cast (totalChecked_eq hsound)
  markdown_checked := markdownReport_begins project runs
  exit_iff := by
    unfold exitCode
    split <;> simp [*]
  context_iff := findingsContext_eq_empty_iff hsound
  text_iff := textReport_ends_iff runs
  log_iff := by
    rw [logCatch_eq_self_iff, entry_total_eq hsound]
    exact Int.natCast_eq_zero
  logged_iff hfound log files := by
    refine logCatch_ne_iff ?_ log files
    rw [entry_total_eq hsound]
    exact Int.natCast_ne_zero.mpr hfound

/-- **All reports agree** on what the checkers of the library make of an audit, whatever the plan,
the project, the options and what is remembered of packages. -/
theorem reportsAgree_runChecks (audit : Audit) (cache : Packages.ApiCache)
    (project timestamp tool : String) :
    ReportsAgree project timestamp tool (runChecks .builtin audit cache).1 :=
  reportsAgree_of_sound (nodup_id_runChecks audit cache)
    fun _ hr => sound_of_mem_runChecks audit cache hr

end PlanAudit
