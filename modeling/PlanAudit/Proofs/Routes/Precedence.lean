import PlanAudit.Proofs.Routes.Served

/-!
# Which of several routes is found

A URL that is not itself listed is served by the first route that serves it, in the order in which
the routes are listed.  A route whose last segment stands for the rest of the URL is therefore found
in front of one that spells the URL segment by segment if it is listed in front of it; and a scan
lists a directory `[...slug]` in front of its neighbour `[id]`.  The method of a call is then judged
by what the less specific route handles.

## Main definitions

* `FitsPlainly`, `PlainlyServed`: a route without dots fits a URL
* `SpecificAt`, `Specific`: the route that is found, and the one that a method is judged by, has no
  dots while another one without dots fits
* `Overtaken`: a route with dots is listed in front of all those without dots that fit

## Main results

* `specific_iff`: this is the one way in which a less specific route is found
* `specific_of_pairwise`: it does not happen where routes with dots are listed last
* `catchAll_overtakes`: a call of a method that is handled, and which is rejected
-/

namespace PlanAudit.Routes

open Text

/-! ## Specificity -/

/-- A route without dots fits a URL: they are equal, or they agree segment by segment. -/
def FitsPlainly (path url : String) : Prop :=
  path = url ∨ List.Forall₂ Agrees (properSegments path) (properSegments url)

/-- A route without dots in its last segment fits the URL. -/
def PlainlyServed (path url : String) : Prop :=
  ¬ EndsInCatchAll (properSegments path) ∧ FitsPlainly path url

/-- A route with dots in its last segment may be found only under its own URL, or where no route
without them fits. -/
def SpecificAt (index : AppIndex) (url path : String) : Prop :=
  EndsInCatchAll (properSegments path) →
    path = url ∨ ∀ other ∈ index.names, ¬ PlainlyServed other url

/-- The route that is found for a URL is as specific as it should, and so is the route by whose
methods the method of a call is judged. -/
structure Specific (index : AppIndex) (url : String) : Prop where
  found : ∀ route, index.match? url = some route →
    ∃ path, index.listed? url = some (path, route) ∧ SpecificAt index url path
  judged : ∀ m : Mention, m.ownerName = url → (judgeApp index m).category = some .httpMethod →
    ∃ path route, index.listed? url = some (path, route) ∧ SpecificAt index url path ∧
      judgeApp index m = m.reject .httpMethod (some (methodsHint route.methods))

/-- A route with dots that serves the URL is listed in front of every route without dots that fits
it, and there is one of these. -/
def Overtaken (index : AppIndex) (url : String) : Prop :=
  ∃ front path route back, index.entries = front ++ (path, route) :: back ∧
    Spans (properSegments path) (properSegments url) ∧
    (∀ entry ∈ front, ¬ PlainlyServed entry.1 url) ∧ ∃ entry ∈ back, PlainlyServed entry.1 url

section Specific

variable {index : AppIndex} {url path : String} {m : Mention}

/-- A method is rejected by what the route that is found handles. -/
theorem exists_match?_of_httpMethod (h : (judgeApp index m).category = some .httpMethod) :
    ∃ route, index.match? m.ownerName = some route ∧
      judgeApp index m = m.reject .httpMethod (some (methodsHint route.methods)) := by
  unfold judgeApp at h ⊢
  cases hfound : index.match? m.ownerName with
  | none =>
    rw [hfound] at h
    cases Option.some.inj h
  | some route =>
    refine ⟨route, rfl, ?_⟩
    rw [hfound] at h
    dsimp only at h ⊢
    cases hmethod : m.method with
    | none =>
      rw [hmethod] at h
      cases h
    | some method =>
      rw [hmethod] at h
      dsimp only at h ⊢
      split at h
      · cases h
      · rename_i hnot
        exact if_neg hnot

/-- It is enough to look at the entry that is found. -/
theorem specific_of_listed?
    (h : ∀ entry, index.listed? url = some entry → SpecificAt index url entry.1) :
    Specific index url := by
  have hfound : ∀ route, index.match? url = some route →
      ∃ path, index.listed? url = some (path, route) ∧ SpecificAt index url path := by
    intro route hroute
    rw [match?_eq_map_listed?] at hroute
    obtain ⟨⟨path, route⟩, hentry, rfl⟩ := Option.map_eq_some_iff.mp hroute
    have hat : SpecificAt index url path := h (path, route) hentry
    exact ⟨path, hentry, hat⟩
  refine ⟨hfound, ?_⟩
  rintro m rfl hcategory
  obtain ⟨route, hroute, hjudged⟩ := exists_match?_of_httpMethod hcategory
  obtain ⟨path, hentry, hspecific⟩ := hfound route hroute
  exact ⟨path, route, hentry, hspecific, hjudged⟩

/-- What is listed under the URL itself is found. -/
theorem eq_of_listed?_of_mem_names (hlisted : url ∈ index.names) {entry : String × AppRoute}
    (h : index.listed? url = some entry) : entry.1 = url := by
  obtain ⟨listed, hmem, rfl⟩ := List.mem_map.mp hlisted
  have hexact : (index.entries.find? fun e => e.1 == listed.1).isSome :=
    List.find?_isSome.mpr ⟨listed, hmem, beq_self_eq_true listed.1⟩
  obtain ⟨first, hfirst⟩ := Option.isSome_iff_exists.mp hexact
  rw [AppIndex.listed?, hfirst, Option.some_or] at h
  obtain rfl := Option.some.inj h
  simpa using List.find?_some hfirst

/-! ### A URL that is not listed -/

section NotListed

variable (hlisted : url ∉ index.names)
include hlisted

/-- The first route that serves it is found. -/
theorem listed?_eq_find? : index.listed? url =
    index.entries.find? fun e => serves (properSegments e.1) (properSegments url) := by
  have hnone : (index.entries.find? fun e => e.1 == url) = none := by
    rw [List.find?_eq_none]
    intro e he hurl
    exact hlisted (List.mem_map.mpr ⟨e, he, by simpa using hurl⟩)
  rw [AppIndex.listed?, hnone, Option.none_or]

/-- What fits it without dots serves it. -/
theorem serves_of_plainlyServed {entry : String × AppRoute} (hmem : entry ∈ index.entries)
    (h : PlainlyServed entry.1 url) :
    serves (properSegments entry.1) (properSegments url) = true := by
  have hne : entry.1 ≠ url := fun heq => hlisted (List.mem_map.mpr ⟨entry, hmem, heq⟩)
  exact (serves_iff_of_not_endsInCatchAll h.1).mpr (h.2.resolve_left hne)

/-- What is found where a route is overtaken has dots. -/
theorem exists_listed?_of_overtaken (h : Overtaken index url) :
    ∃ entry, index.listed? url = some entry ∧ EndsInCatchAll (properSegments entry.1) := by
  obtain ⟨front, path, route, back, hsplit, hspans, hfront, -⟩ := h
  have hserves := (serves_iff_of_endsInCatchAll hspans.endsInCatchAll).mpr hspans
  have hfound : ((path, route) :: back).find?
      (fun e => serves (properSegments e.1) (properSegments url)) = some (path, route) :=
    List.find?_cons_of_pos hserves
  rw [listed?_eq_find? hlisted, hsplit, List.find?_append, hfound]
  -- What comes first stands in front of the route with dots, or is this route.
  cases hearly : front.find? fun e => serves (properSegments e.1) (properSegments url) with
  | none => exact ⟨(path, route), rfl, hspans.endsInCatchAll⟩
  | some entry =>
    refine ⟨entry, rfl, ?_⟩
    by_contra hplain
    have hovertakes : serves (properSegments entry.1) (properSegments url) = true := by
      simpa using List.find?_some hearly
    have hfits := (serves_iff_of_not_endsInCatchAll hplain).mp hovertakes
    exact hfront entry (List.mem_of_find?_eq_some hearly) ⟨hplain, Or.inr hfits⟩

/-- Where a route with dots is found, those without dots that fit are overtaken. -/
theorem overtaken_of_listed? {entry other : String × AppRoute} (h : index.listed? url = some entry)
    (hdots : EndsInCatchAll (properSegments entry.1)) (hother : other ∈ index.entries)
    (hplain : PlainlyServed other.1 url) : Overtaken index url := by
  rw [listed?_eq_find? hlisted] at h
  obtain ⟨hserves, front, back, hsplit, hfront⟩ := List.find?_eq_some_iff_append.mp h
  -- What fits without dots serves the URL, so that it does not stand in front of the first.
  have hnone : ∀ early ∈ front, ¬ PlainlyServed early.1 url := by
    intro early hearly hfits
    have hmem : early ∈ index.entries := by simp [hsplit, hearly]
    have hnot := hfront early hearly
    rw [serves_of_plainlyServed hlisted hmem hfits] at hnot
    cases hnot
  refine ⟨front, entry.1, entry.2, back, hsplit, (serves_iff_of_endsInCatchAll hdots).mp hserves,
    hnone, other, ?_, hplain⟩
  rw [hsplit] at hother
  rcases List.mem_append.mp hother with hearly | hlater
  · exact absurd hplain (hnone other hearly)
  · rcases List.mem_cons.mp hlater with rfl | hlater
    · exact absurd hdots hplain.1
    · exact hlater

end NotListed

/-- A URL that is listed is served by what is listed under it. -/
theorem specific_of_mem_names (hlisted : url ∈ index.names) : Specific index url :=
  specific_of_listed? fun _ hentry _ => Or.inl (eq_of_listed?_of_mem_names hlisted hentry)

/-- Where nothing is overtaken, the route that is found has no dots unless none without fits. -/
theorem specific_of_not_overtaken (hover : ¬ Overtaken index url) : Specific index url := by
  by_cases hlisted : url ∈ index.names
  · exact specific_of_mem_names hlisted
  refine specific_of_listed? fun entry hentry hdots => Or.inr fun name hname hplain => ?_
  obtain ⟨other, hother, rfl⟩ := List.mem_map.mp hname
  exact hover (overtaken_of_listed? hlisted hentry hdots hother hplain)

/-- Where a route is overtaken, one with dots is found for a URL that is not listed. -/
theorem not_overtaken_of_specific (hlisted : url ∉ index.names) (hspecific : Specific index url) :
    ¬ Overtaken index url := by
  intro hover
  obtain ⟨⟨path, route⟩, hentry, hdots⟩ := exists_listed?_of_overtaken hlisted hover
  obtain ⟨path', hpath, hat⟩ := hspecific.found route (by
    rw [match?_eq_map_listed?, hentry]
    rfl)
  obtain ⟨rfl, -⟩ := Prod.mk.inj (Option.some.inj (hentry.symm.trans hpath))
  -- The route without dots that is overtaken is the one that should have been found.
  obtain ⟨front, _, _, back, hsplit, -, -, other, hother, hplain⟩ := hover
  have hmem : other ∈ index.entries := by simp [hsplit, hother]
  have hlistedPath : path ∈ index.names := by
    rw [listed?_eq_find? hlisted] at hentry
    exact List.mem_map_of_mem (List.mem_of_find?_eq_some hentry)
  rcases hat hdots with rfl | hnone
  · exact hlisted hlistedPath
  · exact hnone other.1 (List.mem_map_of_mem hmem) hplain

/-- **The one way in which a less specific route is found**: the URL is not listed, and a route with
dots overtakes those without. -/
theorem specific_iff (index : AppIndex) (url : String) :
    Specific index url ↔ url ∈ index.names ∨ ¬ Overtaken index url := by
  constructor
  · intro hspecific
    by_cases hlisted : url ∈ index.names
    · exact Or.inl hlisted
    · exact Or.inr (not_overtaken_of_specific hlisted hspecific)
  · rintro (hlisted | hover)
    · exact specific_of_mem_names hlisted
    · exact specific_of_not_overtaken hover

/-- Nothing is overtaken where routes with dots are listed last. -/
theorem specific_of_pairwise (h : index.entries.Pairwise fun a b =>
    EndsInCatchAll (properSegments a.1) → EndsInCatchAll (properSegments b.1)) (url : String) :
    Specific index url := by
  refine specific_of_not_overtaken ?_
  rintro ⟨front, path, route, back, hsplit, hspans, -, entry, hentry, hplain⟩
  rw [hsplit] at h
  have hlast := (List.pairwise_cons.mp (List.pairwise_append.mp h).2.1).1 entry hentry
  exact hplain.1 (hlast hspans.endsInCatchAll)

end Specific

/-! ### Two neighbours -/

/-- Two neighbouring directories, in the order in which a scan lists them. -/
def neighbours : AppIndex :=
  .ofList [("/api/[...slug]", ⟨"/api/[...slug]", "app/api/[...slug]/route.ts", ["GET"]⟩),
    ("/api/[id]", ⟨"/api/[id]", "app/api/[id]/route.ts", ["POST"]⟩)]

/-- A call that the second of them handles. -/
def secondCall : Mention :=
  { raw := "POST /api/42"
    kind := .route
    owner := some "/api/42"
    method := some "POST" }

/-- **A route with dots overtakes** the one without that fits, and the method that this one handles
is rejected. -/
theorem catchAll_overtakes : ¬ Specific neighbours "/api/42" ∧
    (judgeApp neighbours secondCall).category = some .httpMethod := by
  refine ⟨fun hspecific => ?_, by decide⟩
  have hcatch : EndsInCatchAll (properSegments "/api/[...slug]") :=
    ⟨"[...slug]", by decide, by decide⟩
  have hplain : PlainlyServed "/api/[id]" "/api/42" := by
    refine ⟨?_, Or.inr (by decide)⟩
    rintro ⟨last, hlast, hdots⟩
    obtain rfl : "[id]" = last := Option.some.inj (Eq.trans (by decide) hlast)
    exact absurd hdots (by decide)
  obtain ⟨path, hentry, hat⟩ := hspecific.found
    ⟨"/api/[...slug]", "app/api/[...slug]/route.ts", ["GET"]⟩ (by decide)
  have hpath : (neighbours.listed? "/api/42").map Prod.fst = some "/api/[...slug]" := by decide
  rw [hentry] at hpath
  obtain rfl : path = "/api/[...slug]" := Option.some.inj hpath
  rcases hat hcatch with hown | hnone
  · exact absurd hown (by decide)
  · exact hnone "/api/[id]" (by decide) hplain

end PlanAudit.Routes
