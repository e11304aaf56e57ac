import PlanAudit.Paths.Judgement
import PlanAudit.Proofs.Pattern.Leftmost
import PlanAudit.Proofs.Text.Words

/-!
# Lists of new files

A plan can list its new files under any number of titles, written as headings of the document or in
bold.  Of each of the two forms only the first title is looked for, so a path that stands under a
later one is taken for new if a phrase announces it, or if it stands in the list of a first title as
well, and is otherwise judged as if the plan had not listed it.

## Main definitions

* `Title plan`: a place of the plan at which a title of either form stands
* `Title.Lists`: what stands under a title, from the end of its line up to the next heading
* `Title.Counts`: everything that stands under the title is taken for new
* `Title.IsFirst`, `Title.Reached`: the titles that are looked for, and those that stand in the list
  of one of them

## Main results

* `any_newFileSections_iff`: what the sections hold, by its place in the plan
* `counts_iff`: which titles count
* `second_title_lost`: a title that does not
-/

namespace PlanAudit.Paths

open Text Pattern

variable {plan : List Char}

/-! ## Titles and what stands under them -/

/-- A place of the plan at which a title of a list of new files stands, in either form. -/
structure Title (plan : List Char) where
  /-- How the title is written. -/
  form : Pattern
  form_mem : form ∈ newFilesHeadings
  /-- Where it stands. -/
  found : Match
  stands : form.StandsIn plan found

/-- The text stands in the plan at the position `start` or later, and ends before every heading of
the document that starts at the position `back` or later. -/
def StandsBetween (plan : List Char) (start back : Nat) (text : List Char) : Prop :=
  ∃ u v, plan = u ++ (text ++ v) ∧ start ≤ u.length ∧
    ∀ next, heading.StandsIn plan next → back ≤ next.start → u.length + text.length ≤ next.start

namespace Title

/-- The end of the line on which the title ends. -/
def lineEnd (title : Title plan) : Nat := lineEndFrom plan title.found.stop

/-- The path stands under the title: behind its line and before the next heading. -/
def Lists (title : Title plan) (path : String) : Prop :=
  StandsBetween plan title.lineEnd title.lineEnd path.toList

/-- The path stands in the section that the title opens: at the title or behind it and before the
next heading behind its line. -/
def Opens (title : Title plan) (path : String) : Prop :=
  StandsBetween plan title.found.start title.lineEnd path.toList

/-- The title counts: the plan announces every path under it, and none is hallucinated, whatever the
project has and whatever shapes are allowed. -/
def Counts (title : Title plan) : Prop :=
  ∀ path, title.Lists path → hasCreateSignal path plan = true ∧
    ∀ tree allowed m, m.raw = path → (judge tree plan allowed m).hallucinated = false

/-- No title of the same form stands in front of it. -/
def IsFirst (title : Title plan) : Prop :=
  ∀ m, title.form.StandsIn plan m → title.found.start ≤ m.start

/-- A first title stands in front, or is the same, and no heading between the ends of their
lines. -/
def Reached (title : Title plan) : Prop :=
  ∃ first : Title plan, first.IsFirst ∧ first.lineEnd ≤ title.lineEnd ∧
    ∀ next, heading.StandsIn plan next → first.lineEnd ≤ next.start → title.lineEnd ≤ next.start

theorem start_le_lineEnd (title : Title plan) : title.found.start ≤ title.lineEnd :=
  title.stands.start_le_stop.trans (Nat.le_add_right _ _)

/-- What stands under a title stands in the section that it opens. -/
theorem Lists.opens {title : Title plan} {path : String} (h : title.Lists path) :
    title.Opens path := by
  obtain ⟨u, v, hsplit, hu, hnext⟩ := h
  exact ⟨u, v, hsplit, title.start_le_lineEnd.trans hu, hnext⟩

end Title

/-! ## The sections of a plan -/

/-- What the section of a title holds. -/
theorem contains_sectionFrom_iff (title : Title plan) {path : String} :
    contains path.toList (sectionFrom plan title.found) = true ↔ title.Opens path := by
  have hlength := title.stands.start_le_length
  rw [ contains_iff_infix, sectionFrom]
  cases hsearch : heading.searchFrom plan (lineEndFrom plan title.found.stop) with
  | none =>
    -- No heading stands behind the line, so that the section goes on to the end of the plan.
    have hnone := searchFrom_eq_none_iff.mp hsearch
    have hall : plan.drop title.found.start = slice plan title.found.start plan.length := by
      rw [slice, List.take_length]
    dsimp only
    rw [hall, infix_slice_iff hlength hlength]
    constructor
    · rintro ⟨u, v, hsplit, hu, -⟩
      exact ⟨u, v, hsplit, hu, fun next hnext hback =>
        absurd hback (Nat.not_le_of_lt (hnone next hnext))⟩
    · rintro ⟨u, v, hsplit, hu, -⟩
      have hlengths := congrArg List.length hsplit
      rw [List.length_append, List.length_append, ← Nat.add_assoc] at hlengths
      exact ⟨u, v, hsplit, hu, hlengths ▸ Nat.le_add_right _ _⟩
  | some next =>
    obtain ⟨hstands, hback, hfirst⟩ := searchFrom_eq_some_iff.mp hsearch
    dsimp only
    rw [infix_slice_iff (title.start_le_lineEnd.trans hback) hlength]
    constructor
    · rintro ⟨u, v, hsplit, hu, hend⟩
      exact ⟨u, v, hsplit, hu, fun later hlater hle => hend.trans (hfirst later hlater hle)⟩
    · rintro ⟨u, v, hsplit, hu, hend⟩
      exact ⟨u, v, hsplit, hu, hend next hstands hback⟩

/-- **The sections of a plan** are those of the first titles. -/
theorem any_newFileSections_iff {path : String} :
    (newFileSections plan).any (contains path.toList) = true ↔
      ∃ first : Title plan, first.IsFirst ∧ first.Opens path := by
  rw [List.any_eq_true]
  constructor
  · rintro ⟨piece, hpiece, hcontains⟩
    obtain ⟨form, hform, hmap⟩ := List.mem_filterMap.mp hpiece
    obtain ⟨found, hfound, rfl⟩ := Option.map_eq_some_iff.mp hmap
    obtain ⟨hstands, hfirst⟩ := search_eq_some_iff.mp hfound
    exact ⟨⟨form, hform, found, hstands⟩, hfirst,
      (contains_sectionFrom_iff ⟨form, hform, found, hstands⟩).mp hcontains⟩
  · rintro ⟨first, hfirst, hopens⟩
    have hfound : first.form.search plan = some first.found :=
      search_eq_some_iff.mpr ⟨first.stands, hfirst⟩
    exact ⟨sectionFrom plan first.found,
      List.mem_filterMap.mpr ⟨first.form, first.form_mem, congrArg _ hfound⟩,
      (contains_sectionFrom_iff first).mpr hopens⟩

theorem hasCreateSignal_iff {path : String} : hasCreateSignal path plan = true ↔
    (∃ p ∈ announcementPatterns path, p.occursIn plan = true) ∨
      ∃ first : Title plan, first.IsFirst ∧ first.Opens path := by
  rw [hasCreateSignal, Bool.or_eq_true, any_newFileSections_iff, List.any_eq_true]

/-! ## Which titles count -/

/-- A path that the plan announces is not hallucinated. -/
theorem hallucinated_judge_of_hasCreateSignal {m : Mention}
    (h : hasCreateSignal m.raw plan = true) (tree : FileTree) (allowed : List String) :
    (judge tree plan allowed m).hallucinated = false := by
  unfold judge
  rw [h, Bool.or_true, if_pos rfl]
  split <;> rfl

theorem counts_of_forall {title : Title plan}
    (h : ∀ path, title.Lists path → hasCreateSignal path plan = true) : title.Counts := by
  intro path hpath
  refine ⟨h path hpath, fun tree allowed m hm => ?_⟩
  subst hm
  exact hallucinated_judge_of_hasCreateSignal (h m.raw hpath) tree allowed

/-- What stands under a title that a first one reaches stands in the section of that one. -/
theorem Title.Reached.counts {title : Title plan} (h : title.Reached) : title.Counts := by
  obtain ⟨first, hfirst, hle, hclear⟩ := h
  refine counts_of_forall fun path hpath => hasCreateSignal_iff.mpr (Or.inr ⟨first, hfirst, ?_⟩)
  obtain ⟨u, v, hsplit, hu, hnext⟩ := hpath
  -- A heading behind the line of the first title stands behind that of the later one as well.
  exact ⟨u, v, hsplit, (first.start_le_lineEnd.trans hle).trans hu,
    fun next hstands hback => hnext next hstands (hclear next hstands hback)⟩

/-- A first title reaches itself. -/
theorem Title.IsFirst.reached {title : Title plan} (h : title.IsFirst) : title.Reached :=
  ⟨title, h, Nat.le_refl _, fun _ _ hback => hback⟩

/-- **Which titles count**: those under which every path is announced by a phrase or stands in the
section of a first title.  So the first title of either form does, and so does every title with no
heading between a first one and itself. -/
theorem counts_iff (title : Title plan) :
    (title.Counts ↔ ∀ path, title.Lists path →
      (∃ p ∈ announcementPatterns path, p.occursIn plan = true) ∨
        ∃ first : Title plan, first.IsFirst ∧ first.Opens path) ∧
      (title.IsFirst → title.Reached) ∧ (title.Reached → title.Counts) := by
  refine ⟨⟨fun h path hpath => hasCreateSignal_iff.mp (h path hpath).1, fun h => ?_⟩,
    Title.IsFirst.reached, Title.Reached.counts⟩
  exact counts_of_forall fun path hpath => hasCreateSignal_iff.mpr (h path hpath)

/-- A plan with two lists of new files and a heading between them. -/
def twoLists : List Char :=
  "# New\n- src/a.ts\n\n# Changed\n\n# New\n- src/b.ts\n".toList

/-- The second of the two titles. -/
def secondTitle : Title twoLists where
  form := headingMarks ++ blanks ++ newFilesTitle
  form_mem := List.mem_cons_self
  found := ⟨29, 34, twoLists.drop 29, []⟩
  stands := ⟨twoLists.take 29, twoLists.drop 29, (List.take_append_drop 29 _).symm, by rfl⟩

/-- **A second title is lost**: the path under it is reported as hallucinated. -/
theorem second_title_lost : secondTitle.Lists "src/b.ts" ∧
    hallucinatedPaths (analyze twoLists ⟨["src/c.ts"]⟩ []) = ["src/b.ts"] ∧
    ¬ secondTitle.Counts := by
  have hlists : secondTitle.Lists "src/b.ts" := by
    refine ⟨twoLists.take 37, ['\n'], by decide +kernel, by decide +kernel, ?_⟩
    -- No heading stands behind the line of the second title.
    have hnone : heading.searchFrom twoLists secondTitle.lineEnd = none := by rfl
    intro next hnext hback
    exact absurd hback (Nat.not_le_of_lt (searchFrom_eq_none_iff.mp hnone next hnext))
  have hunsignalled : hasCreateSignal "src/b.ts" twoLists = false := by decide +kernel
  refine ⟨hlists, by decide +kernel, fun hcounts => ?_⟩
  have hsignal := (hcounts "src/b.ts" hlists).1
  rw [hunsignalled] at hsignal
  cases hsignal

end PlanAudit.Paths
