import PlanAudit.Catches.Log
import PlanAudit.Proofs.Catalog
import PlanAudit.Proofs.Files.Walk
import PlanAudit.Proofs.Json.Framing

/-!
# What the catch log gives back

Entries are written as lines that end in line feeds, but they are read as lines that may end in
other ways, too.  An entry comes back exactly if none of its texts holds one of the wide line ends,
which are written as they are.  An entry that holds one is lost, and it leaves nothing in its place:
no piece of it is an entry.

## Main definitions

* `CatchEntry.texts`, `CatchEntry.counts`: what an entry holds
* `LogEvent`: an entry that is logged, or a line that something else adds to the file
* `LogEvent.run`: the file system after some events

## Main results

* `CatchEntry.ofJson?_json`: an entry is what its JSON value stands for
* `readCatchText_catchLine`: an entry is read back or lost as a whole
* `readCatches_run`: the log gives back what the events give back one by one
* `readCatches_run_eq_logged_iff`: the log is complete exactly if its entries have no wide line ends
-/

namespace PlanAudit

open Text Json

/-! ## Entries as JSON values -/

namespace CatchEntry

/-- The texts of an entry. -/
def texts (e : CatchEntry) : List String :=
  e.timestamp :: e.tool :: e.project ::
    e.findings.entries.flatMap fun f => f.1 :: (f.2.map (·.items)).getD []

/-- The counts of an entry. -/
def counts (e : CatchEntry) : List Int :=
  e.totalChecked :: e.totalHallucinated ::
    e.findings.entries.flatMap fun f => (f.2.map fun c => [c.checked, c.hallucinated]).getD []

/-- No text of the entry holds a wide line end. -/
def Narrow (e : CatchEntry) : Prop := ∀ s ∈ e.texts, Json.Narrow s

/-- The counts of the entry have no more digits than are read. -/
def Countable (e : CatchEntry) : Prop := ∀ n ∈ e.counts, n.natAbs < 10 ^ maxDigits

instance (e : CatchEntry) : Decidable e.Narrow :=
  List.decidableBAll _ e.texts

instance (e : CatchEntry) : Decidable e.Countable :=
  List.decidableBAll _ e.counts

end CatchEntry

theorem mapM_map_eq_some {α β γ : Type} {f : α → β} {g : β → Option γ} {k : α → γ}
    (h : ∀ a, g (f a) = some (k a)) (l : List α) : (l.map f).mapM g = some (l.map k) := by
  induction l with
  | nil => rfl
  | cons a l ih =>
    rw [List.map_cons, List.mapM_cons, h, ih]
    rfl

theorem CatchCounts.ofJson?_json (c : CatchCounts) : CatchCounts.ofJson? c.json = some c := by
  have hitems : itemsOf? (some (.array (c.items.map .string))) = some c.items := by
    have hstrings := mapM_map_eq_some (f := Json.string) (g := (·.string?)) (fun _ => rfl) c.items
    rwa [List.map_id'] at hstrings
  have hchecked : c.json.member? "checked" = some (.ofInt c.checked) := rfl
  have hhallucinated : c.json.member? "hallucinated" = some (.ofInt c.hallucinated) := rfl
  have hmember : c.json.member? "items" = some (.array (c.items.map .string)) := rfl
  have hnumber : ∀ n, Number.ofJson? (.ofInt n) = some n := fun _ => rfl
  rw [CatchCounts.ofJson?, hchecked, hhallucinated, hmember, hitems]
  simp only [Option.bind_eq_bind, Option.bind_some, hnumber]

theorem CatchCounts.ofOptionalJson?_optionalJson (c : Option CatchCounts) :
    CatchCounts.ofOptionalJson? (CatchCounts.optionalJson c) = some c := by
  cases c with
  | none => rfl
  | some c =>
    have hcounts : CatchCounts.ofOptionalJson? c.json = (CatchCounts.ofJson? c.json).map some := rfl
    rw [CatchCounts.optionalJson, hcounts, CatchCounts.ofJson?_json]
    rfl

theorem findingsOf?_json (findings : Catalog (Option CatchCounts)) :
    findingsOf? (.object (findings.entries.map fun f => (f.1, CatchCounts.optionalJson f.2))) =
      some findings := by
  have hmembers := mapM_map_eq_some
    (f := fun f : String × Option CatchCounts => (f.1, CatchCounts.optionalJson f.2))
    (g := fun m => (CatchCounts.ofOptionalJson? m.2).map fun c => (m.1, c)) (k := id)
    (fun f => by rw [CatchCounts.ofOptionalJson?_optionalJson]; rfl) findings.entries
  rw [findingsOf?, hmembers, List.map_id, Option.map_some]
  exact congrArg some (Catalog.ext (Catalog.entries_ofList findings.nodup))

/-- **An entry is what its JSON value stands for.** -/
theorem CatchEntry.ofJson?_json (e : CatchEntry) : CatchEntry.ofJson? e.json = some e := by
  have hfindings : e.json.member? "findings" = some
      (.object (e.findings.entries.map fun f => (f.1, CatchCounts.optionalJson f.2))) := rfl
  have htexts : e.json.member? "timestamp" = some (.string e.timestamp) ∧
      e.json.member? "tool" = some (.string e.tool) ∧
      e.json.memberBy? "projectDir" "project_dir" = some (.string e.project) := ⟨rfl, rfl, rfl⟩
  have htotals : e.json.memberBy? "totalChecked" "total_checked" = some (.ofInt e.totalChecked) ∧
      e.json.memberBy? "totalHallucinated" "total_hallucinated" =
        some (.ofInt e.totalHallucinated) := ⟨rfl, rfl⟩
  have hnumber : ∀ n, Number.ofJson? (.ofInt n) = some n := fun _ => rfl
  have hstring : ∀ s, (Json.string s).string? = some s := fun _ => rfl
  rw [CatchEntry.ofJson?, htexts.1, htexts.2.1, htexts.2.2, hfindings, htotals.1, htotals.2]
  simp only [Option.bind_eq_bind, Option.bind_some, hnumber, hstring, findingsOf?_json]

/-! ## Entries as records -/

theorem CatchCounts.recordable_optionalJson {c : Option CatchCounts}
    (h : ∀ n ∈ (c.map fun c => [c.checked, c.hallucinated]).getD [], n.natAbs < 10 ^ maxDigits) :
    Recordable 2 (CatchCounts.optionalJson c) := by
  cases c with
  | none => trivial
  | some c =>
    refine fun _ => ⟨by decide, h _ (by simp), h _ (by simp), fun _ => ⟨by decide, ?_⟩, trivial⟩
    rw [recordableItems_iff]
    intro item hitem
    obtain ⟨s, -, rfl⟩ := List.mem_map.mp hitem
    trivial

theorem CatchEntry.recordable_json {e : CatchEntry} (h : e.Countable) : Recordable 0 e.json := by
  have hfindings : Recordable 1
      (.object (e.findings.entries.map fun f => (f.1, CatchCounts.optionalJson f.2))) := by
    refine fun _ => ⟨by decide, ?_⟩
    rw [recordableMembers_iff]
    intro m hm
    obtain ⟨f, hf, rfl⟩ := List.mem_map.mp hm
    refine CatchCounts.recordable_optionalJson fun n hn => h n ?_
    exact List.mem_cons_of_mem _ (List.mem_cons_of_mem _ (List.mem_flatMap.mpr ⟨f, hf, hn⟩))
  exact fun _ => ⟨by decide, trivial, trivial, trivial, hfindings, h _ (by simp [counts]),
    h _ (by simp [counts]), trivial⟩

theorem CatchCounts.narrow_optionalJson_iff (c : Option CatchCounts) :
    (∀ s ∈ strings (CatchCounts.optionalJson c), Json.Narrow s) ↔
      ∀ s ∈ (c.map (·.items)).getD [], Json.Narrow s := by
  cases c with
  | none => rfl
  | some c =>
    have hfields : ∀ s ∈ ["checked", "hallucinated", "items"], Json.Narrow s := by decide
    have hstrings : strings (CatchCounts.optionalJson (some c)) =
        ["checked", "hallucinated", "items"] ++ c.items := by
      simp [CatchCounts.optionalJson, CatchCounts.json, strings, memberStrings, Json.ofInt,
        itemStrings_eq_flatMap, List.flatMap_map]
    rw [hstrings, List.forall_mem_append]
    exact and_iff_right hfields

theorem CatchEntry.narrow_json_iff (e : CatchEntry) :
    (∀ s ∈ strings e.json, Json.Narrow s) ↔ e.Narrow := by
  -- Its strings are the names of its fields, which are narrow, and its texts.
  have hfields : Json.Narrow "timestamp" ∧ Json.Narrow "tool" ∧ Json.Narrow "projectDir" ∧
      Json.Narrow "findings" ∧ Json.Narrow "totalChecked" ∧ Json.Narrow "totalHallucinated" := by
    decide
  have hfindings : (∀ s ∈ memberStrings (e.findings.entries.map fun f =>
      (f.1, CatchCounts.optionalJson f.2)), Json.Narrow s) ↔
      ∀ s ∈ e.findings.entries.flatMap fun f => f.1 :: (f.2.map (·.items)).getD [],
        Json.Narrow s := by
    rw [memberStrings_eq_flatMap, List.flatMap_map, List.forall_mem_flatMap,
      List.forall_mem_flatMap]
    refine forall₂_congr fun f _ => ?_
    rw [List.forall_mem_cons, List.forall_mem_cons, CatchCounts.narrow_optionalJson_iff]
  simp only [CatchEntry.json, strings, memberStrings, Json.ofInt, List.cons_append, List.nil_append,
    List.append_nil, List.forall_mem_cons, List.forall_mem_append, hfindings, hfields, true_and,
    CatchEntry.Narrow, CatchEntry.texts, List.not_mem_nil, false_imp_iff, implies_true, and_true]

/-! ## Entries as lines -/

theorem catchOfLine?_record {e : CatchEntry} (h : e.Countable) :
    catchOfLine? e.json.compact.toList = some e := by
  rw [catchOfLine?, parse_compact (CatchEntry.recordable_json h)]
  exact CatchEntry.ofJson?_json e

theorem unbroken_record_iff (e : CatchEntry) : Unbroken e.json.compact.toList ↔ e.Narrow :=
  (unbroken_compact_iff e.json).trans e.narrow_json_iff

theorem exists_object_of_catchOfLine? {line : List Char} {e : CatchEntry}
    (h : catchOfLine? line = some e) :
    ∃ ms value, parse .strict line = .ok (.object ms) ∧ ("timestamp", value) ∈ ms := by
  obtain ⟨j, hparse, hj⟩ := Option.bind_eq_some_iff.mp h
  have hok : parse .strict line = .ok j := by
    cases hread : parse .strict line with
    | error fault =>
      rw [hread] at hparse
      cases hparse
    | ok v =>
      rw [hread] at hparse
      exact congrArg Except.ok (Option.some.inj hparse)
  obtain ⟨value, hvalue, -⟩ := Option.bind_eq_some_iff.mp hj
  -- Only an object has a time.
  cases j with
  | object ms =>
    refine ⟨ms, value, hok, ?_⟩
    have hlookup : ms.reverse.lookup "timestamp" = some value := hvalue
    obtain ⟨first, rest, heq, -⟩ := List.lookup_eq_some_iff.mp hlookup
    rw [← List.mem_reverse, heq]
    exact List.mem_append_right _ List.mem_cons_self
  | null | bool | number | string | array => cases hvalue

theorem catchOfLine?_piece {j : Json} {before piece after : List Char}
    (htext : j.compact.toList = before ++ (piece ++ after)) (hcut : before ≠ [] ∨ after ≠ [])
    (hbefore : LineStart before) (hafter : LineEnd after) : catchOfLine? piece = none := by
  rw [Option.eq_none_iff_forall_ne_some]
  intro e he
  obtain ⟨ms, value, hparse, hmem⟩ := exists_object_of_catchOfLine? he
  -- The name of the time begins with a letter, but the names of a piece begin with marks.
  have hhead : 't' ∈ "timestamp".toList.head? := by decide
  have hname := head?_of_parse_piece htext hcut hbefore hafter hparse _ hmem 't' hhead
  revert hname
  decide

theorem readCatchText_append_lineFeed (text rest : List Char) :
    readCatchText (text ++ '\n' :: rest) =
      readCatchText (text ++ ['\n']) ++ readCatchText rest := by
  rw [readCatchText, splitLines_append_lineFeed, List.filterMap_append]
  rfl

/-- **An entry is read back or lost as a whole**, depending on its texts. -/
theorem readCatchText_catchLine {e : CatchEntry} (h : e.Countable) :
    readCatchText (catchLine e) = if e.Narrow then [e] else [] := by
  split
  · rename_i hnarrow
    rw [readCatchText, catchLine, splitLines_unbroken ((unbroken_record_iff e).mpr hnarrow)]
    simp [catchOfLine?_record h]
  · rename_i hwide
    -- Whatever pieces the line falls into, none of them is an entry.
    rw [readCatchText, List.filterMap_eq_nil_iff]
    intro piece hpiece
    obtain ⟨before, after, htext, hunbroken, hbefore, hafter⟩ := exists_of_mem_splitLines hpiece
    -- The line feed at the end belongs to no piece.
    rcases after.eq_nil_or_concat with rfl | ⟨after, c, rfl⟩
    · rcases piece.eq_nil_or_concat with rfl | ⟨first, c, rfl⟩
      · rfl
      · rw [catchLine, List.append_nil, List.concat_eq_append, ← List.append_assoc] at htext
        have hfeed := (List.append_inj' htext rfl).2
        have hc : isLineBreak c = false := hunbroken c (by simp)
        rw [← (List.cons.inj hfeed).1] at hc
        cases hc
    · rw [catchLine, List.concat_eq_append, ← List.append_assoc, ← List.append_assoc] at htext
      have hrecord := (List.append_inj' htext rfl).1
      rw [List.append_assoc] at hrecord
      refine catchOfLine?_piece hrecord ?_ hbefore ?_
      · by_contra hwhole
        simp only [not_or, not_not] at hwhole
        rw [hwhole.1, hwhole.2, List.nil_append, List.append_nil] at hrecord
        exact hwide ((unbroken_record_iff e).mp (hrecord ▸ hunbroken))
      · intro x hx
        refine hafter x ?_
        rw [List.concat_eq_append, List.head?_append, hx]
        rfl

/-! ## Logs -/

/-- What happens to the file of a log. -/
inductive LogEvent where
  /-- An entry is logged. -/
  | caught (e : CatchEntry)
  /-- Something else adds a line. -/
  | line (text : List Char)

namespace LogEvent

/-- What an event adds to the file; an entry without rejected references adds nothing. -/
def written : LogEvent → List Char
  | caught e => if e.totalHallucinated = 0 then [] else catchLine e
  | line text => text ++ ['\n']

/-- The file system after an event. -/
def apply (log : Path) (files : FileSystem) : LogEvent → FileSystem
  | caught e => logCatch e log files
  | line text => (files.append? log (text ++ ['\n'])).getD files

/-- The file system after events one after the other. -/
def run (log : Path) (files : FileSystem) (events : List LogEvent) : FileSystem :=
  events.foldl (apply log) files

/-- The entry that an event should leave in the log. -/
def logged? : LogEvent → Option CatchEntry
  | caught e => if e.totalHallucinated = 0 then none else some e
  | line _ => none

variable {log : Path} {files : FileSystem}

theorem written_eq_nil_or (event : LogEvent) :
    event.written = [] ∨ ∃ text, event.written = text ++ ['\n'] := by
  cases event with
  | caught e =>
    rw [written]
    split
    · exact .inl rfl
    · exact .inr ⟨_, rfl⟩
  | line text => exact .inr ⟨text, rfl⟩

theorem apply_of_written_eq_nil {event : LogEvent} (h : event.written = []) :
    event.apply log files = files := by
  cases event with
  | caught e =>
    rw [written] at h
    split at h
    · rename_i hzero
      rw [apply, logCatch, if_pos hzero]
    · simp [catchLine] at h
  | line text => simp [written] at h

theorem apply_of_written_ne_nil {event : LogEvent} (h : event.written ≠ []) :
    event.apply log files = (files.append? log event.written).getD files := by
  cases event with
  | caught e =>
    rw [written] at h ⊢
    split at h
    · exact absurd rfl h
    · rename_i hzero
      rw [apply, logCatch, if_neg hzero, if_neg hzero]
  | line text => rfl

theorem content?_run {text : List Char} (h : files.content? log = some (.text text))
    (events : List LogEvent) :
    (run log files events).content? log = some (.text (text ++ events.flatMap written)) := by
  induction events generalizing files text with
  | nil => rwa [List.flatMap_nil, List.append_nil]
  | cons event events ih =>
    have hstep : (event.apply log files).content? log = some (.text (text ++ event.written)) := by
      by_cases hnil : event.written = []
      · rwa [apply_of_written_eq_nil hnil, hnil, List.append_nil]
      · obtain ⟨fs', happend, hcontent⟩ := FileSystem.content?_append? h event.written
        rw [apply_of_written_ne_nil hnil, happend]
        exact hcontent
    rw [List.flatMap_cons, ← List.append_assoc]
    exact ih hstep

theorem content?_run_of_fresh (h : files.Fresh log) (events : List LogEvent) :
    (run log files events).content? log = some (.text (events.flatMap written)) ∨
      events.flatMap written = [] ∧ (run log files events).content? log = none := by
  induction events with
  | nil => exact .inr ⟨rfl, h.absent⟩
  | cons event events ih =>
    by_cases hnil : event.written = []
    · rw [List.flatMap_cons, hnil, List.nil_append]
      have hstep : run log files (event :: events) = run log files events :=
        congrArg (run log · events) (apply_of_written_eq_nil hnil)
      rwa [hstep]
    · -- The event makes the file, and the others add to it.
      obtain ⟨fs', happend, hcontent⟩ := h.writable event.written
      have hstep : event.apply log files = fs' := by
        rw [apply_of_written_ne_nil hnil, happend, Option.getD_some]
      refine .inl ?_
      rw [List.flatMap_cons]
      exact content?_run (hstep ▸ hcontent) events

theorem readCatchText_written (events : List LogEvent) :
    readCatchText (events.flatMap written) = events.flatMap fun event =>
      readCatchText event.written := by
  induction events with
  | nil => rfl
  | cons event events ih =>
    rw [List.flatMap_cons, List.flatMap_cons, ← ih]
    rcases event.written_eq_nil_or with hnil | ⟨text, htext⟩
    · rw [hnil]
      rfl
    · rw [htext, List.append_assoc, List.singleton_append, readCatchText_append_lineFeed]

/-- **The log gives back what the events give back one by one.** -/
theorem readCatches_run (h : files.Fresh log) (events : List LogEvent) :
    readCatches log (run log files events) =
      .ok (events.flatMap fun event => readCatchText event.written) := by
  rw [← readCatchText_written]
  -- A log that was never made is read as an empty one.
  rcases content?_run_of_fresh h events with hcontent | ⟨hnil, hcontent⟩
  · rw [readCatches, hcontent]
    simp only [Content.read?, readCatchText, splitLines_unifyLineEnds]
  · rw [readCatches, hcontent, hnil]
    rfl

/-! ## What is lost -/

/-- Of the entries that are logged those without wide line ends are given back, in order, if the
lines between them hold no entries. -/
theorem flatMap_readCatchText_written {events : List LogEvent}
    (hcounts : ∀ e ∈ events.filterMap logged?, e.Countable)
    (hlines : ∀ text, line text ∈ events → readCatchText (text ++ ['\n']) = []) :
    (events.flatMap fun event => readCatchText event.written) =
      (events.filterMap logged?).filter fun e => decide e.Narrow := by
  induction events with
  | nil => rfl
  | cons event events ih =>
    have hrest := ih
      (fun e he => hcounts e (List.mem_filterMap.mpr
        ((List.mem_filterMap.mp he).imp fun _ h => ⟨List.mem_cons_of_mem _ h.1, h.2⟩)))
      fun text hmem => hlines text (List.mem_cons_of_mem _ hmem)
    rw [List.flatMap_cons, hrest]
    cases event with
    | line text =>
      rw [written, hlines text List.mem_cons_self]
      rfl
    | caught e =>
      by_cases hzero : e.totalHallucinated = 0
      · have hnone : logged? (caught e) = none := if_pos hzero
        rw [List.filterMap_cons_none hnone, written, if_pos hzero]
        rfl
      · have hsome : logged? (caught e) = some e := if_neg hzero
        have hcount := hcounts e (List.mem_filterMap.mpr ⟨_, List.mem_cons_self, hsome⟩)
        rw [List.filterMap_cons_some hsome, written, if_neg hzero, readCatchText_catchLine hcount,
          List.filter_cons]
        by_cases hnarrow : e.Narrow <;> simp [hnarrow]

/-- **What the log gives back**: of the entries with rejected references, in order, those without
wide line ends, and nothing else, whatever lines without entries stand between them.  So the log is
complete exactly if no text of an entry holds a wide line end. -/
theorem readCatches_run_eq_logged_iff {log : Path} {files : FileSystem} (h : files.Fresh log)
    {events : List LogEvent} (hcounts : ∀ e ∈ events.filterMap logged?, e.Countable)
    (hlines : ∀ text, line text ∈ events → readCatchText (text ++ ['\n']) = []) :
    readCatches log (run log files events) =
      .ok ((events.filterMap logged?).filter fun e => decide e.Narrow) ∧
    (readCatches log (run log files events) = .ok (events.filterMap logged?) ↔
      ∀ e ∈ events.filterMap logged?, e.Narrow) := by
  have hread : readCatches log (run log files events) =
      .ok ((events.filterMap logged?).filter fun e => decide e.Narrow) := by
    rw [readCatches_run h, flatMap_readCatchText_written hcounts hlines]
  refine ⟨hread, ?_⟩
  rw [hread, Except.ok.injEq, List.filter_eq_self]
  simp only [decide_eq_true_eq]

end LogEvent

/-- An entry with one rejected reference. -/
def sampleEntry (item : String) : CatchEntry :=
  { timestamp := "2026-01-02T03:04:05+00:00"
    tool := "imports"
    project := "project"
    findings := .ofList [("imports", some ⟨1, 1, [item]⟩), ("env", none)]
    totalChecked := 1
    totalHallucinated := 1 }

theorem fresh_catches : FileSystem.empty.Fresh ["catches.jsonl"] := by
  have hroot : FileSystem.empty.locate? [] = some [] := rfl
  exact FileSystem.fresh_of_directory hroot rfl (by decide) rfl

/-- Of two entries around a line that is no JSON, the one with a line separator is lost. -/
theorem readCatches_run_sample :
    FileSystem.empty.Fresh ["catches.jsonl"] ∧
    readCatches ["catches.jsonl"] (LogEvent.run ["catches.jsonl"] .empty
      [.caught (sampleEntry "left-pad"), .line "oops".toList,
        .caught (sampleEntry "left\u2028pad")]) = .ok [sampleEntry "left-pad"] := by
  refine ⟨fresh_catches, ?_⟩
  refine (LogEvent.readCatches_run_eq_logged_iff fresh_catches ?_ ?_).1.trans ?_
  · decide +kernel
  · intro text hmem
    simp only [List.mem_cons, reduceCtorEq, false_or, or_false, List.not_mem_nil,
      LogEvent.line.injEq] at hmem
    rw [hmem]
    decide +kernel
  · decide +kernel

/-- **Entries get lost**: an entry with a line separator is not given back. -/
theorem not_logged_entries_read_back : ¬ ∀ (files : FileSystem) (log : Path)
    (entries : List CatchEntry), files.Fresh log →
      readCatches log (LogEvent.run log files (entries.map .caught)) =
        .ok (entries.filter fun e => decide (e.totalHallucinated ≠ 0)) := by
  intro hall
  have hread := hall .empty ["catches.jsonl"] [sampleEntry "left\u2028pad"] fresh_catches
  rw [LogEvent.readCatches_run fresh_catches,
    LogEvent.flatMap_readCatchText_written (by decide +kernel)
      fun text hmem => absurd hmem (by simp)] at hread
  revert hread
  decide +kernel

end PlanAudit
