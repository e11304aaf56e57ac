import PlanAudit.Proofs.Catalog
import PlanAudit.Proofs.Text.Segments
import PlanAudit.Routes.Discovery
import PlanAudit.Routes.Judgement

/-!
# Instances of a route are found

A file of the application router serves all URLs that its own URL stands for: every parameter can be
any segment, and a last segment with dots any number of them.  However many other files a project
has, and whatever they serve, a URL for which some file stands is found, so that the plan may
mention it.

## Main definitions

* `InstanceOf`: a URL is what a pattern stands for, segment by segment

## Main results

* `serves_of_instanceOf`: a route serves the instances of its URL
* `match?_ne_none_of_instanceOf`: an instance of a listed URL is found
* `instances_served`: the instances of the URL of a file are found and not rejected as missing
-/

namespace PlanAudit.Routes

open Text

/-! ## Instances -/

/-- A URL is what a pattern stands for, both given by their segments: a segment stands for itself,
one in square brackets for any segment, and a last one with dots for several, with double brackets
also for none. -/
inductive InstanceOf : List String → List String → Prop
  | done : InstanceOf [] []
  | literal (s : String) {pattern url : List String} (rest : InstanceOf pattern url) :
      InstanceOf (s :: pattern) (s :: url)
  | parameter (name s : String) (segment : IsSegment s) {pattern url : List String}
      (rest : InstanceOf pattern url) : InstanceOf (("[" ++ name ++ "]") :: pattern) (s :: url)
  | several (name : String) {url : List String} (some : url ≠ [])
      (segments : ∀ s ∈ url, IsSegment s) : InstanceOf ["[..." ++ name ++ "]"] url
  | optional (name : String) {url : List String} (segments : ∀ s ∈ url, IsSegment s) :
      InstanceOf ["[[..." ++ name ++ "]]"] url

section Instances

variable {pattern url : List String}

theorem InstanceOf.isSegment (h : InstanceOf pattern url) (hpattern : ∀ s ∈ pattern, IsSegment s) :
    ∀ s ∈ url, IsSegment s := by
  induction h with
  | done => exact hpattern
  | literal s _ ih =>
    obtain ⟨hs, hrest⟩ := List.forall_mem_cons.mp hpattern
    exact List.forall_mem_cons.mpr ⟨hs, ih hrest⟩
  | parameter _ s hs _ ih =>
    exact List.forall_mem_cons.mpr ⟨hs, ih (List.forall_mem_cons.mp hpattern).2⟩
  | several _ _ hsegments => exact hsegments
  | optional _ hsegments => exact hsegments

/-! ## Matching -/

theorem stringBegins_append (a b : String) : stringBegins a (a ++ b) = true := by
  rw [stringBegins, beginsWith, List.isPrefixOf_iff_prefix, String.toList_append]
  exact List.prefix_append _ _

theorem isDynamic_parameter (name : String) : isDynamic ("[" ++ name ++ "]") = true := by
  have hbegins : stringBegins "[" ("[" ++ name ++ "]") = true := by
    rw [String.append_assoc]
    exact stringBegins_append _ _
  have hends : stringEnds "]" ("[" ++ name ++ "]") = true := by
    rw [stringEnds, endsWith, List.isSuffixOf_iff_suffix, String.toList_append]
    exact List.suffix_append _ _
  rw [isDynamic, hbegins, hends]
  rfl

theorem isCatchAll_several (name : String) : isCatchAll ("[..." ++ name ++ "]") = true := by
  rw [isCatchAll, String.append_assoc, stringBegins_append]
  rfl

theorem isCatchAll_optional (name : String) : isCatchAll ("[[..." ++ name ++ "]]") = true := by
  have hbegins : stringBegins "[[..." ("[[..." ++ name ++ "]]") = true := by
    rw [String.append_assoc]
    exact stringBegins_append _ _
  rw [isCatchAll, hbegins]
  exact Bool.or_true _

theorem serves_cons {r u : String} (hagree : (isDynamic r || r == u) = true)
    (h : serves pattern url = true) : serves (r :: pattern) (u :: url) = true := by
  rw [serves, Bool.or_eq_true] at h ⊢
  cases pattern with
  | nil =>
    -- Nothing stands for the rest, so there is no rest.
    have hnil : url = [] := by
      cases url with
      | nil => rfl
      | cons s rest => simp [catchAllServes] at h
    rw [hnil]
    exact Or.inr (by simp [segmentsAgree, hagree])
  | cons p rest =>
    refine h.imp (fun hall => ?_) fun hsame => ?_
    · -- The last segment is the same, and one more comes before it.
      have hlast : (r :: p :: rest).getLast? = (p :: rest).getLast? := List.getLast?_cons_cons
      unfold catchAllServes at hall ⊢
      rw [hlast]
      cases hl : (p :: rest).getLast? with
      | none => simp [hl] at hall
      | some last =>
        simp only [hl, Bool.and_eq_true, decide_eq_true_eq] at hall
        simp only [List.dropLast_cons_cons, List.length_cons, segmentsAgree, hagree, hall.1.1,
          hall.2, Bool.true_and, Bool.and_true, decide_eq_true_eq]
        exact Nat.succ_le_succ hall.1.2
    · simp only [Bool.and_eq_true, beq_iff_eq] at hsame
      simp [segmentsAgree, hagree, hsame.1, hsame.2]

theorem serves_of_isCatchAll {last : String} (h : isCatchAll last = true) :
    serves [last] url = true := by
  -- Nothing stands in front of it that would have to agree.
  rw [serves, Bool.or_eq_true]
  exact Or.inl (by simp [catchAllServes, segmentsAgree, h])

/-- **A route serves the instances of its URL.** -/
theorem serves_of_instanceOf (h : InstanceOf pattern url) : serves pattern url = true := by
  induction h with
  | done => rfl
  | literal s _ ih => exact serves_cons (by simp) ih
  | parameter name s _ _ ih => exact serves_cons (by simp [isDynamic_parameter]) ih
  | several name _ _ => exact serves_of_isCatchAll (isCatchAll_several name)
  | optional name _ => exact serves_of_isCatchAll (isCatchAll_optional name)

end Instances

/-! ## Look-up -/

theorem match?_ne_none_of_serves {index : AppIndex} {pattern url : String}
    (hlisted : pattern ∈ index.names)
    (h : serves (properSegments pattern) (properSegments url) = true) :
    ∃ route, index.match? url = some route := by
  unfold AppIndex.match?
  cases index.find? url with
  | some route => exact ⟨route, rfl⟩
  | none =>
    -- The entry of the pattern serves the URL, so some entry is the first that does.
    obtain ⟨entry, hentry, rfl⟩ := List.mem_map.mp hlisted
    have hfirst : (index.entries.find? fun entry =>
        serves (properSegments entry.1) (properSegments url)).isSome = true :=
      List.find?_isSome.mpr ⟨entry, hentry, h⟩
    obtain ⟨found, hfound⟩ := Option.isSome_iff_exists.mp hfirst
    exact ⟨found.2, by simp [hfound]⟩

/-- **An instance of a listed URL is found**, whatever else is listed. -/
theorem match?_ne_none_of_instanceOf {index : AppIndex} {pattern : String} {url : List String}
    (hlisted : pattern ∈ index.names) (h : InstanceOf (properSegments pattern) url) :
    ∃ route, index.match? (slashed url) = some route := by
  refine match?_ne_none_of_serves hlisted ?_
  rw [properSegments_slashed (h.isSegment fun s => isSegment_of_mem_properSegments)]
  exact serves_of_instanceOf h

theorem mem_names_ofProject {p : Project} {tree : FileTree} {path : String} {route : AppRoute}
    (hpath : path ∈ tree.paths) (hroute : appRoute? p path = some route) :
    route.url ∈ (AppIndex.ofProject p tree).names := by
  rw [AppIndex.ofProject, Catalog.mem_names_ofList, List.map_map]
  exact List.mem_map.mpr ⟨route, List.mem_filterMap.mpr ⟨path, hpath, hroute⟩, rfl⟩

/-! ## URLs of files -/

/-- The URL of a file has a slash before each of its segments. -/
theorem slashed_properSegments_of_urlOfFile {path url : String} (h : urlOfFile? path = some url) :
    slashed (properSegments url) = url := by
  unfold urlOfFile? at h
  split at h
  · cases h
  · obtain rfl := Option.some.inj h
    -- Only segments that are something show in the URL.
    refine congrArg slashed (properSegments_slashed fun s hs => ?_)
    obtain ⟨hmem, hshows⟩ := List.mem_filter.mp hs
    have hne : s ≠ "" := by simpa using (Bool.and_eq_true_iff.mp hshows).1
    exact ⟨hne, not_mem_of_mem_segments hmem⟩

theorem slashed_properSegments_url {p : Project} {path : String} {route : AppRoute}
    (h : appRoute? p path = some route) : slashed (properSegments route.url) = route.url := by
  unfold appRoute? at h
  split at h
  · obtain ⟨url, hurl, rfl⟩ := Option.map_eq_some_iff.mp h
    exact slashed_properSegments_of_urlOfFile hurl
  · cases h

/-! ## Judgement -/

/-- A route that is found is not rejected as missing; if its file handles no known method, it is
not rejected at all. -/
theorem judgeApp_of_found {index : AppIndex} {m : Mention} {route : AppRoute}
    (h : index.match? m.ownerName = some route) :
    (judgeApp index m).category ≠ some .route ∧
      (route.methods = [] → judgeApp index m = m.accept) := by
  unfold judgeApp
  rw [h]
  simp only
  cases hmethod : m.method with
  | none => exact ⟨nofun, fun _ => rfl⟩
  | some method =>
    refine ⟨?_, fun hnone => if_pos (Or.inr (Or.inl hnone))⟩
    simp only
    split
    · exact nofun
    · exact fun hcategory => nomatch Option.some.inj hcategory

/-- **No URL that a file serves is reported missing**: whatever a project contains, each URL that
the URL of a route file stands for is found and not rejected as missing, and it is accepted if the
file that is found handles no known method. -/
theorem instances_served (p : Project) (tree : FileTree) (path : String) (route : AppRoute)
    (hpath : path ∈ tree.paths) (hroute : appRoute? p path = some route) :
    slashed (properSegments route.url) = route.url ∧
      ∀ url, InstanceOf (properSegments route.url) url →
        ∃ served, (AppIndex.ofProject p tree).match? (slashed url) = some served ∧
          ∀ m : Mention, m.ownerName = slashed url →
            (judgeApp (AppIndex.ofProject p tree) m).category ≠ some .route ∧
              (served.methods = [] → judgeApp (AppIndex.ofProject p tree) m = m.accept) := by
  refine ⟨slashed_properSegments_url hroute, fun url hurl => ?_⟩
  obtain ⟨served, hserved⟩ := match?_ne_none_of_instanceOf (mem_names_ofProject hpath hroute) hurl
  refine ⟨served, hserved, fun m hm => judgeApp_of_found ?_⟩
  rw [hm]
  exact hserved

/-! ### A site with a page for every language -/

/-- The file that serves the pages of a site. -/
def pageFile : String := "src/app/(site)/[lang]/docs/[[...page]]/route.ts"

/-- A site that holds the file. -/
def site : Project where
  files := FileSystem.empty.write (.ofString pageFile)
    (.text "export async function GET() \x7b\x7d".toList)
  directory := []

/-- The files of the site, among them one that cannot be read. -/
def siteTree : FileTree := ⟨["src/app/(site)/de/docs/route.ts", pageFile]⟩

/-- The route of the pages. -/
def pageRoute : AppRoute := ⟨"/[lang]/docs/[[...page]]", pageFile, ["GET"]⟩

/-- A page in one of the languages. -/
def pageUrl : List String := ["de", "docs", "guide", "intro"]

theorem instanceOf_pageUrl : InstanceOf (properSegments pageRoute.url) pageUrl := by
  have hpattern : properSegments pageRoute.url =
      ["[" ++ "lang" ++ "]", "docs", "[[..." ++ "page" ++ "]]"] := by decide
  rw [hpattern]
  exact .parameter "lang" "de" (by decide) (.literal "docs" (.optional "page" (by decide)))

/-- The page is found in the site. -/
theorem instances_served_page : pageFile ∈ siteTree.paths ∧
    appRoute? site pageFile = some pageRoute ∧
    ∃ served, (AppIndex.ofProject site siteTree).match? (slashed pageUrl) = some served ∧
      ∀ m : Mention, m.ownerName = slashed pageUrl →
        (judgeApp (AppIndex.ofProject site siteTree) m).category ≠ some .route ∧
          (served.methods = [] → judgeApp (AppIndex.ofProject site siteTree) m = m.accept) :=
  have hlisted : pageFile ∈ siteTree.paths := by decide
  have hroute : appRoute? site pageFile = some pageRoute := by decide +kernel
  ⟨hlisted, hroute, (instances_served site siteTree pageFile pageRoute hlisted hroute).2 pageUrl
    instanceOf_pageUrl⟩

end PlanAudit.Routes
