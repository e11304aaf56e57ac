import Mathlib.Data.List.Forall2
import PlanAudit.Proofs.Routes.Instances

/-!
# What a route serves

A route serves the URLs that its own URL stands for.  It serves a few more: a last segment that
opens with dots is taken for whatever is left of a URL, also if that is nothing although there are
single brackets around it, and also if the brackets are not closed.  So the route that is found for
a URL stands for it unless it reaches beyond what it stands for in one of these two ways.

## Main definitions

* `Agrees`, `Spans`: what is compared of a route and of a URL
* `AppIndex.listed?`: the route that serves a URL, and where it is listed
* `Overreaches`: the two ways in which a route serves more than it stands for
* `ServedAsInstance`: the route that is found for a URL stands for it

## Main results

* `serves_iff`: a route serves a URL segment by segment, or up to its last segment
* `instanceOf_iff_not_overreaches`: these are the only two ways
* `servedAsInstance_iff`: which URLs are served as they should
* `bare_path_served`: a URL that nothing but a required rest is missing from
-/

namespace PlanAudit.Routes

open Text

/-! ## Segment by segment -/

/-- A segment of a route agrees with one of a URL: it stands in brackets, or they are equal. -/
def Agrees (r u : String) : Prop := isDynamic r = true ∨ r = u

instance (r u : String) : Decidable (Agrees r u) := inferInstanceAs (Decidable (_ ∨ _))

/-- The last segment of a route opens with dots. -/
def EndsInCatchAll (route : List String) : Prop := ∃ last ∈ route.getLast?, isCatchAll last = true

/-- The last segment of a route opens with dots, and those in front of it agree with the first
segments of a URL. -/
def Spans (route url : List String) : Prop :=
  ∃ front last part rest, route = front ++ [last] ∧ isCatchAll last = true ∧ url = part ++ rest ∧
    List.Forall₂ Agrees front part

section Serves

variable {route front part rest url : List String} {last : String}

theorem endsInCatchAll_concat : EndsInCatchAll (front ++ [last]) ↔ isCatchAll last = true := by
  rw [EndsInCatchAll, List.getLast?_concat]
  exact ⟨fun ⟨_, hlast, h⟩ => Option.some.inj hlast ▸ h, fun h => ⟨last, rfl, h⟩⟩

theorem Spans.endsInCatchAll (h : Spans route url) : EndsInCatchAll route := by
  obtain ⟨front, last, part, rest, rfl, hlast, -, -⟩ := h
  exact endsInCatchAll_concat.mpr hlast

theorem exists_concat_of_endsInCatchAll (h : EndsInCatchAll route) :
    ∃ front last, route = front ++ [last] ∧ isCatchAll last = true := by
  obtain ⟨last, hlast, hcatch⟩ := h
  obtain ⟨front, rfl⟩ := List.getLast?_eq_some_iff.mp hlast
  exact ⟨front, last, rfl, hcatch⟩

theorem segmentsAgree_append (h : front.length = part.length) :
    segmentsAgree front (part ++ rest) = true ↔ List.Forall₂ Agrees front part := by
  induction front generalizing part with
  | nil =>
    obtain rfl := List.length_eq_zero_iff.mp h.symm
    exact ⟨fun _ => .nil, fun _ => by cases rest <;> rfl⟩
  | cons r front ih =>
    obtain ⟨u, part, rfl⟩ := List.exists_cons_of_length_eq_add_one h.symm
    rw [List.cons_append, segmentsAgree, Bool.and_eq_true, Bool.or_eq_true, beq_iff_eq,
      ih (Nat.succ.inj h), List.forall₂_cons]
    rfl

/-- What a last segment with dots leaves to be compared. -/
theorem catchAllServes_iff : catchAllServes route url = true ↔ Spans route url := by
  rcases List.eq_nil_or_concat' route with rfl | ⟨front, last, rfl⟩
  · refine ⟨fun h => Bool.noConfusion h, fun h => ?_⟩
    obtain ⟨last, hlast, -⟩ := h.endsInCatchAll
    cases hlast
  · unfold catchAllServes
    simp only [List.getLast?_concat, List.dropLast_concat, Bool.and_eq_true, decide_eq_true_eq]
    constructor
    · rintro ⟨⟨hlast, hlength⟩, hagree⟩
      have htake : front.length = (url.take front.length).length := by simpa using hlength
      rw [← List.take_append_drop front.length url, segmentsAgree_append htake] at hagree
      exact ⟨front, last, _, _, rfl, hlast, (List.take_append_drop _ _).symm, hagree⟩
    · rintro ⟨front', last', part, rest, hsplit, hlast, rfl, hagree⟩
      obtain ⟨rfl, rfl⟩ := List.append_singleton_inj.mp hsplit
      have hlength := hagree.length_eq
      refine ⟨⟨hlast, ?_⟩, (segmentsAgree_append hlength).mpr hagree⟩
      rw [List.length_append, hlength]
      exact Nat.le_add_right _ _

/-- **What a route serves**: the URLs that agree with it segment by segment, or up to a last segment
with dots. -/
theorem serves_iff : serves route url = true ↔ Spans route url ∨ List.Forall₂ Agrees route url := by
  have hall : (route.length == url.length && segmentsAgree route url) = true ↔
      List.Forall₂ Agrees route url := by
    rw [Bool.and_eq_true, beq_iff_eq]
    constructor
    · rintro ⟨hlength, hagree⟩
      rw [← List.append_nil url, segmentsAgree_append hlength] at hagree
      exact hagree
    · intro hagree
      refine ⟨hagree.length_eq, ?_⟩
      rw [← List.append_nil url, segmentsAgree_append hagree.length_eq]
      exact hagree
  rw [serves, Bool.or_eq_true, catchAllServes_iff, hall]

/-- Without dots in its last segment a route serves what agrees with it segment by segment. -/
theorem serves_iff_of_not_endsInCatchAll (h : ¬ EndsInCatchAll route) :
    serves route url = true ↔ List.Forall₂ Agrees route url :=
  serves_iff.trans (or_iff_right fun hspans => h hspans.endsInCatchAll)

/-- With dots in its last segment it serves what agrees with the segments in front. -/
theorem serves_iff_of_endsInCatchAll (h : EndsInCatchAll route) :
    serves route url = true ↔ Spans route url := by
  refine serves_iff.trans (or_iff_left_of_imp fun hagree => ?_)
  obtain ⟨front, last, rfl, hlast⟩ := exists_concat_of_endsInCatchAll h
  have hfront := List.forall₂_take front.length hagree
  rw [List.take_left] at hfront
  exact ⟨front, last, _, _, rfl, hlast, (List.take_append_drop front.length url).symm, hfront⟩

end Serves

/-! ## Instances -/

section Instances

variable {pattern front part rest url : List String} {last name : String}

theorem exists_of_isDynamic {r : String} (h : isDynamic r = true) :
    ∃ name, r = "[" ++ name ++ "]" := by
  obtain ⟨hbegins, hends⟩ := Bool.and_eq_true_iff.mp h
  obtain ⟨t, ht⟩ := List.isPrefixOf_iff_prefix.mp hbegins
  obtain ⟨s, hs⟩ := List.isSuffixOf_iff_suffix.mp hends
  -- The bracket that opens the segment is not the one that closes it.
  cases s with
  | nil =>
    rw [← ht] at hs
    exact absurd (List.cons.inj hs).1 (by decide)
  | cons c s =>
    rw [← ht] at hs
    obtain ⟨-, hrest⟩ := List.cons.inj hs
    have hname : (String.ofList s).toList = s := String.toList_ofList
    refine ⟨String.ofList s, String.toList_inj.mp ?_⟩
    rw [← ht, String.toList_append, String.toList_append, hname, List.append_assoc]
    exact congrArg ('[' :: ·) hrest.symm

/-- Segments that agree may stand in front of what a pattern stands for. -/
theorem InstanceOf.append (hfront : List.Forall₂ Agrees front part)
    (hpart : ∀ s ∈ part, IsSegment s) (h : InstanceOf pattern rest) :
    InstanceOf (front ++ pattern) (part ++ rest) := by
  induction hfront with
  | nil => exact h
  | @cons r u front part hru _ ih =>
    obtain ⟨hu, hlater⟩ := List.forall_mem_cons.mp hpart
    rcases hru with hdynamic | rfl
    · obtain ⟨name, rfl⟩ := exists_of_isDynamic hdynamic
      exact .parameter name u hu (ih hlater)
    · exact .literal r (ih hlater)

/-- All segments but the last of a pattern stand for one segment each. -/
theorem InstanceOf.exists_rest (h : InstanceOf (front ++ [last]) url) :
    ∃ part rest, url = part ++ rest ∧ part.length = front.length ∧ InstanceOf [last] rest := by
  induction front generalizing url with
  | nil => exact ⟨[], url, rfl, rfl, h⟩
  | cons r front ih =>
    -- What follows a segment in front is not the end, so that none of its kind stands for several.
    generalize hpattern : r :: front ++ [last] = pattern at h
    cases h with
    | done => cases hpattern
    | literal s h' | parameter _ s _ h' =>
      obtain ⟨-, rfl⟩ := List.cons.inj hpattern
      obtain ⟨part, rest, rfl, hlength, hrest⟩ := ih h'
      exact ⟨s :: part, rest, rfl, congrArg (· + 1) hlength, hrest⟩
    | several | optional =>
      obtain ⟨-, hnil⟩ := List.cons.inj hpattern
      exact absurd hnil (by simp)

/-- Only a last segment with double brackets stands for nothing. -/
theorem InstanceOf.exists_of_nil (h : InstanceOf [last] []) :
    ∃ name, last = "[[..." ++ name ++ "]]" := by
  generalize hpattern : [last] = pattern at h
  generalize hurl : ([] : List String) = url at h
  cases h with
  | done => cases hpattern
  | literal | parameter => cases hurl
  | several _ hsome => exact absurd hurl.symm hsome
  | optional name => exact ⟨name, (List.cons.inj hpattern).1⟩

theorem several_ne_optional (name other : String) :
    "[..." ++ name ++ "]" ≠ "[[..." ++ other ++ "]]" := by
  intro h
  have hchars := congrArg (fun s => s.toList.take 2) h
  simp only [String.toList_append, List.append_assoc] at hchars
  exact absurd hchars (by simp)

/-- **How a route can serve a URL that it does not stand for.**  The last segment is taken for the
rest of the URL: it has single brackets, and nothing is left; or it opens like one with dots, but is
not closed like one, and does not stand for what is left. -/
inductive Overreaches : List String → List String → Prop
  | nothing (name : String) {front url : List String} (same : url.length = front.length) :
    Overreaches (front ++ ["[..." ++ name ++ "]"]) url
  | unclosed (last : String) {front part rest : List String} (same : part.length = front.length)
    (opened : isCatchAll last = true) (notSeveral : ∀ name, last ≠ "[..." ++ name ++ "]")
    (notOptional : ∀ name, last ≠ "[[..." ++ name ++ "]]") (other : ¬ InstanceOf [last] rest) :
    Overreaches (front ++ [last]) (part ++ rest)

theorem InstanceOf.not_overreaches (h : InstanceOf pattern url) : ¬ Overreaches pattern url := by
  intro hover
  cases hover with
  | nothing name same =>
    obtain ⟨part, rest, rfl, hlength, hrest⟩ := h.exists_rest
    have hnil : rest = [] := by
      rw [List.length_append, hlength] at same
      exact List.length_eq_zero_iff.mp (by omega)
    obtain ⟨other, hother⟩ := (hnil ▸ hrest).exists_of_nil
    exact several_ne_optional name other hother
  | unclosed last same _ _ _ other =>
    obtain ⟨part, rest, hsplit, hlength, hrest⟩ := h.exists_rest
    obtain ⟨-, rfl⟩ := List.append_inj hsplit (same.trans hlength.symm)
    exact other hrest

/-- **A route stands for what it serves unless it overreaches.** -/
theorem instanceOf_iff_not_overreaches (h : serves pattern url = true)
    (hurl : ∀ s ∈ url, IsSegment s) : InstanceOf pattern url ↔ ¬ Overreaches pattern url := by
  refine ⟨InstanceOf.not_overreaches, fun hover => ?_⟩
  rcases serves_iff.mp h with ⟨front, last, part, rest, rfl, hlast, rfl, hfront⟩ | hagree
  · obtain ⟨hpart, hrest⟩ := List.forall_mem_append.mp hurl
    refine InstanceOf.append hfront hpart ?_
    by_cases hseveral : ∃ name, last = "[..." ++ name ++ "]"
    · obtain ⟨name, rfl⟩ := hseveral
      refine .several name (fun hnil => hover ?_) hrest
      rw [hnil, List.append_nil]
      exact .nothing name hfront.length_eq.symm
    by_cases hoptional : ∃ name, last = "[[..." ++ name ++ "]]"
    · obtain ⟨name, rfl⟩ := hoptional
      exact .optional name hrest
    · by_contra hother
      exact hover (.unclosed last hfront.length_eq.symm hlast (not_exists.mp hseveral)
        (not_exists.mp hoptional) hother)
  · have hwhole := InstanceOf.append hagree hurl .done
    rwa [List.append_nil, List.append_nil] at hwhole

end Instances

/-! ## Look-up -/

/-- The route that serves a URL with the URL under which it is listed: the one listed under exactly
that URL, or else the first that serves it. -/
def AppIndex.listed? (index : AppIndex) (url : String) : Option (String × AppRoute) :=
  (index.entries.find? fun entry => entry.1 == url).or
    (index.entries.find? fun entry => serves (properSegments entry.1) (properSegments url))

section LookUp

variable {index : AppIndex} {url : String}

/-- The route that is found is that of the entry. -/
theorem match?_eq_map_listed? : index.match? url = (index.listed? url).map Prod.snd := by
  have hlookup : ∀ pairs : List (String × AppRoute),
      pairs.lookup url = (pairs.find? fun entry => entry.1 == url).map Prod.snd := by
    intro pairs
    induction pairs with
    | nil => rfl
    | cons pair pairs ih =>
      rw [List.lookup_cons, List.find?_cons, ih, BEq.comm]
      cases pair.1 == url <;> rfl
  rw [AppIndex.match?, AppIndex.listed?, Catalog.find?, hlookup]
  cases index.entries.find? fun entry => entry.1 == url <;> rfl

/-- An entry that is not listed under the URL itself serves it. -/
theorem eq_or_serves_of_listed? {entry : String × AppRoute} (h : index.listed? url = some entry) :
    entry.1 = url ∨ serves (properSegments entry.1) (properSegments url) = true := by
  rcases Option.or_eq_some_iff.mp h with hexact | ⟨-, hfirst⟩
  · exact Or.inl (by simpa using List.find?_some hexact)
  · exact Or.inr (by simpa using List.find?_some hfirst)

/-- The route that is found for a URL is listed under the URL itself or stands for it. -/
def ServedAsInstance (index : AppIndex) (url : String) : Prop :=
  ∀ route, index.match? url = some route → ∃ path, index.listed? url = some (path, route) ∧
    (path = url ∨ InstanceOf (properSegments path) (properSegments url))

/-- **Which URLs are served as they should**: those for which the route that is found does not
overreach. -/
theorem servedAsInstance_iff (index : AppIndex) (url : String) :
    ServedAsInstance index url ↔ ∀ path route, index.listed? url = some (path, route) →
      path = url ∨ ¬ Overreaches (properSegments path) (properSegments url) := by
  have hurl : ∀ s ∈ properSegments url, IsSegment s := fun _ => isSegment_of_mem_properSegments
  constructor
  · intro hserved path route hentry
    obtain ⟨path', hentry', hpath⟩ := hserved route (by rw [match?_eq_map_listed?, hentry]; rfl)
    obtain ⟨rfl, -⟩ := Prod.mk.inj (Option.some.inj (hentry.symm.trans hentry'))
    exact hpath.imp_right InstanceOf.not_overreaches
  · intro hover route hmatch
    rw [match?_eq_map_listed?] at hmatch
    obtain ⟨⟨path, route⟩, hentry, rfl⟩ := Option.map_eq_some_iff.mp hmatch
    refine ⟨path, hentry, ?_⟩
    rcases eq_or_serves_of_listed? hentry with hpath | hserves
    · exact Or.inl hpath
    · exact (hover path route hentry).imp_right (instanceOf_iff_not_overreaches hserves hurl).mpr

end LookUp

/-! ### A required rest that is missing -/

/-- The pages of a manual, which all have something behind the path of the manual. -/
def manual : AppIndex :=
  .ofList [("/docs/[...slug]", ⟨"/docs/[...slug]", "app/docs/[...slug]/route.ts", ["GET"]⟩)]

/-- **The path of the manual alone is served**, although its pages all have something behind it. -/
theorem bare_path_served : ¬ ServedAsInstance manual "/docs" := by
  intro hserved
  have hpattern : properSegments "/docs/[...slug]" = ["docs"] ++ ["[..." ++ "slug" ++ "]"] := by
    decide
  have hlisted : (manual.listed? "/docs").map Prod.fst = some "/docs/[...slug]" := by decide
  obtain ⟨path, hentry, hpath⟩ := hserved
    ⟨"/docs/[...slug]", "app/docs/[...slug]/route.ts", ["GET"]⟩ (by decide)
  rw [hentry] at hlisted
  obtain rfl : path = "/docs/[...slug]" := Option.some.inj hlisted
  rcases hpath with hown | hinstance
  · exact absurd hown (by decide)
  · exact hinstance.not_overreaches (hpattern ▸ .nothing "slug" (by decide))

end PlanAudit.Routes
