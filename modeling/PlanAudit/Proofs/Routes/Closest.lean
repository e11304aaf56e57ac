import PlanAudit.Proofs.Catalog
import PlanAudit.Proofs.Fault
import PlanAudit.Routes.Discovery
import PlanAudit.Routes.Judgement

/-!
# The closest route decides

A URL can match several of the routes that a project registers.  The one that counts is the closest:
an equal path before one with parameters in the route, and these before one with parameters in the
plan; of equally close ones that which is registered first.  The method is judged by what is
registered for the path of the closest route, and by nothing else.

## Main definitions

* `projectRoutes`: the routes that a project registers, in the order in which they are read
* `Matches`, `closeness`: whether a path matches a URL, and how closely
* `Closest`: the closest of some routes
* `JudgedByClosest`: what the judgement of a route says of the registered routes

## Main results

* `match?_eq_some_iff`, `match?_eq_none_iff`: look-up finds the path of the closest route
* `judgedByClosest`: the closest route decides
* `not_judged_by_every_match`: a more distant route with the right method does not help
-/

namespace PlanAudit.Routes

open Text

/-! ## Registered routes -/

/-- The routes that the files register, under the mount paths of the files. -/
def registered (files : List RouterFile) (tree : FileTree) : List CallRoute :=
  (files.flatMap fun f => declaredRoutes f.content f.path).map (mounted (mountPaths files tree))

/-- The files of a project in which routes are looked for. -/
def routerFiles (p : Project) (tree : FileTree) : List RouterFile :=
  (p.texts (sourceFiles tree)).map fun file => ⟨file.1, file.2⟩

/-- The routes that a project registers, in the order in which they are read. -/
def projectRoutes (p : Project) (tree : FileTree) : Framework → List CallRoute
  | .neither => []
  | _ => registered (routerFiles p tree) tree

/-- The index lists the routes under their URLs. -/
structure CallIndex.Lists (index : CallIndex) (routes : List CallRoute) : Prop where
  /-- The URLs, each once, in the order of registration. -/
  names_eq : index.routes.names = firstPerKey id (routes.map (·.url))
  /-- The routes of a URL, in the order of registration. -/
  find?_eq : ∀ url, index.routes.find? url =
    if url ∈ routes.map (·.url) then some (routes.filter fun r => r.url = url) else none

theorem foldl_add (routes : List CallRoute) (index : CallIndex) :
    routes.foldl CallIndex.add index =
      ⟨index.framework, routes.foldl (fun c r => c.push r.url r) index.routes⟩ := by
  induction routes generalizing index with
  | nil => rfl
  | cons r rest ih => exact ih (index.add r)

theorem lists_ofFiles (framework : Framework) (files : List RouterFile) (tree : FileTree) :
    (CallIndex.ofFiles framework files tree).Lists (registered files tree) ∧
      (CallIndex.ofFiles framework files tree).framework = framework := by
  rw [CallIndex.ofFiles, foldl_add]
  exact ⟨⟨Catalog.names_foldl_push_empty _ _, Catalog.find?_foldl_push_empty _ _⟩, rfl⟩

/-- **The index of a project lists the routes that the project registers.** -/
theorem lists_ofProject {p : Project} {tree : FileTree} {index : CallIndex}
    (h : CallIndex.ofProject p tree = .ok index) :
    index.Lists (projectRoutes p tree index.framework) := by
  obtain ⟨framework, -, rfl⟩ := map_eq_ok_iff.mp h
  -- Without a framework nothing is read; which framework it is makes no difference otherwise.
  have hlists := lists_ofFiles framework (routerFiles p tree) tree
  cases framework with
  | neither => exact ⟨rfl, fun _ => rfl⟩
  | express => exact (congrArg (projectRoutes p tree) hlists.2) ▸ hlists.1
  | fastify => exact (congrArg (projectRoutes p tree) hlists.2) ▸ hlists.1
  | both => exact (congrArg (projectRoutes p tree) hlists.2) ▸ hlists.1

/-- The methods for a URL are those of the routes that are registered for it. -/
theorem mem_methodsFor_iff {index : CallIndex} {routes : List CallRoute} (h : index.Lists routes)
    {url method : String} :
    method ∈ index.methodsFor url ↔ ∃ s ∈ routes, s.url = url ∧ s.method = method := by
  rw [CallIndex.methodsFor, mem_firstPerKey_id, h.find?_eq]
  -- A URL that is not listed has no methods, and no route is registered for it.
  split
  · simp only [Option.getD_some, List.mem_map, List.mem_filter, decide_eq_true_eq, and_assoc]
  · rename_i hnone
    simp only [Option.getD_none, List.map_nil, List.not_mem_nil, false_iff, not_exists, not_and]
    intro s hs hurl
    exact absurd (List.mem_map.mpr ⟨s, hs, hurl⟩) hnone

/-! ## Closeness -/

/-- Whether a path matches a URL: they are equal, or they fit segment by segment with parameters in
the path, or with parameters in the URL. -/
def Matches (url path : String) : Prop :=
  path = url ∨ fits (properSegments path) (properSegments url) = true ∨
    fits (properSegments url) (properSegments path) = true

instance (url path : String) : Decidable (Matches url path) := inferInstanceAs (Decidable (_ ∨ _))

/-- How closely a path matches a URL; the smaller the closer. -/
def closeness (url path : String) : Nat :=
  if path = url then 0
  else if fits (properSegments path) (properSegments url) then 1
  else if fits (properSegments url) (properSegments path) then 2
  else 3

theorem matches_iff_closeness {url path : String} : Matches url path ↔ closeness url path < 3 := by
  unfold Matches closeness
  split
  · simp [*]
  · split
    · simp [*]
    · split <;> simp [*]

theorem closeness_eq_zero_iff {url path : String} : closeness url path = 0 ↔ path = url := by
  unfold closeness
  split
  · simp [*]
  · split
    · simp [*]
    · split <;> simp [*]

theorem closeness_eq_one_iff {url path : String} (h₀ : closeness url path ≠ 0) :
    closeness url path = 1 ↔ fits (properSegments path) (properSegments url) = true := by
  have hne : ¬ path = url := fun h => h₀ (closeness_eq_zero_iff.mpr h)
  unfold closeness
  rw [if_neg hne]
  split
  · simp [*]
  · split <;> simp [*]

theorem closeness_eq_two_iff {url path : String} (h₀ : closeness url path ≠ 0)
    (h₁ : closeness url path ≠ 1) :
    closeness url path = 2 ↔ fits (properSegments url) (properSegments path) = true := by
  have hne : ¬ path = url := fun h => h₀ (closeness_eq_zero_iff.mpr h)
  have hroute : ¬ fits (properSegments path) (properSegments url) = true := fun h =>
    h₁ ((closeness_eq_one_iff h₀).mpr h)
  unfold closeness
  rw [if_neg hne, if_neg hroute]
  split <;> simp [*]

/-- The closest of the routes: none is closer, and those before it are less close. -/
structure Closest (routes : List CallRoute) (url : String) (r : CallRoute) : Prop where
  /-- The route matches. -/
  fits : Matches url r.url
  /-- No route is closer. -/
  least : ∀ s ∈ routes, closeness url r.url ≤ closeness url s.url
  /-- No route before it is as close. -/
  first : ∃ before after, routes = before ++ r :: after ∧
    ∀ s ∈ before, closeness url r.url < closeness url s.url

section Lookup

variable {routes : List CallRoute} {url : String}

/-- The first route with a certain closeness. -/
def firstAt (routes : List CallRoute) (url : String) (n : Nat) : Option CallRoute :=
  routes.find? fun r => closeness url r.url == n

theorem firstAt_eq_none_iff {n : Nat} :
    firstAt routes url n = none ↔ ∀ s ∈ routes, closeness url s.url ≠ n := by
  rw [firstAt, List.find?_eq_none]
  simp

/-- The first route with a closeness is the closest if no route is closer. -/
theorem closest_of_firstAt {n : Nat} {r : CallRoute} (hn : n < 3)
    (hleast : ∀ s ∈ routes, n ≤ closeness url s.url) (h : firstAt routes url n = some r) :
    Closest routes url r := by
  obtain ⟨hr, before, after, hroutes, hbefore⟩ := List.find?_eq_some_iff_append.mp h
  have hclose : closeness url r.url = n := beq_iff_eq.mp hr
  -- No route before it has its closeness, and none is closer.
  refine ⟨matches_iff_closeness.mpr (by omega), fun s hs => by rw [hclose]; exact hleast s hs,
    before, after, hroutes, fun s hs => ?_⟩
  have hmem : s ∈ routes := by
    rw [hroutes]
    exact List.mem_append_left _ hs
  have hne : closeness url s.url ≠ n := by simpa using hbefore s hs
  have := hleast s hmem
  omega

theorem firstAt_of_closest {r : CallRoute} (h : Closest routes url r) :
    firstAt routes url (closeness url r.url) = some r := by
  obtain ⟨before, after, hroutes, hbefore⟩ := h.first
  refine List.find?_eq_some_iff_append.mpr ⟨by simp, before, after, hroutes, fun s hs => ?_⟩
  have := hbefore s hs
  simp only [Bool.not_eq_true', beq_eq_false_iff_ne]
  omega

/-- The closest route, tried by closeness. -/
def closest? (routes : List CallRoute) (url : String) : Option CallRoute :=
  (firstAt routes url 0).or ((firstAt routes url 1).or (firstAt routes url 2))

theorem closest?_eq_some_iff {r : CallRoute} :
    closest? routes url = some r ↔ Closest routes url r := by
  constructor
  · -- What is found with a closeness is the closest because nothing closer was found.
    intro h
    unfold closest? at h
    cases h₀ : firstAt routes url 0 with
    | some r₀ =>
      rw [h₀, Option.some_or] at h
      obtain rfl := Option.some.inj h
      exact closest_of_firstAt (by omega) (fun s _ => Nat.zero_le _) h₀
    | none =>
      have hne₀ := firstAt_eq_none_iff.mp h₀
      rw [h₀, Option.none_or] at h
      cases h₁ : firstAt routes url 1 with
      | some r₁ =>
        rw [h₁, Option.some_or] at h
        obtain rfl := Option.some.inj h
        refine closest_of_firstAt (by omega) (fun s hs => ?_) h₁
        have := hne₀ s hs
        omega
      | none =>
        have hne₁ := firstAt_eq_none_iff.mp h₁
        rw [h₁, Option.none_or] at h
        refine closest_of_firstAt (by omega) (fun s hs => ?_) h
        have := hne₀ s hs
        have := hne₁ s hs
        omega
  · -- Whatever is tried before the closeness of the closest route finds nothing.
    intro h
    have hcloser : ∀ n < closeness url r.url, firstAt routes url n = none := by
      intro n hn
      refine firstAt_eq_none_iff.mpr fun s hs => ?_
      have := h.least s hs
      omega
    have hself := firstAt_of_closest h
    have hlt := matches_iff_closeness.mp h.fits
    unfold closest?
    obtain hn | hn | hn : closeness url r.url = 0 ∨ closeness url r.url = 1 ∨
        closeness url r.url = 2 := by omega
    · rw [← hn, hself, Option.some_or]
    · rw [hcloser 0 (by omega), Option.none_or, ← hn, hself, Option.some_or]
    · rw [hcloser 0 (by omega), hcloser 1 (by omega), Option.none_or, Option.none_or, ← hn, hself]

theorem closest?_eq_none_iff :
    closest? routes url = none ↔ ∀ s ∈ routes, ¬ Matches url s.url := by
  simp only [closest?, Option.or_eq_none_iff, firstAt_eq_none_iff, matches_iff_closeness]
  constructor
  · rintro ⟨h₀, h₁, h₂⟩ s hs
    have := h₀ s hs
    have := h₁ s hs
    have := h₂ s hs
    omega
  · intro h
    have hfar : ∀ s ∈ routes, 3 ≤ closeness url s.url := fun s hs => Nat.not_lt.mp (h s hs)
    refine ⟨fun s hs => ?_, fun s hs => ?_, fun s hs => ?_⟩
    · exact Nat.ne_of_gt (Nat.lt_of_lt_of_le (by omega) (hfar s hs))
    · exact Nat.ne_of_gt (Nat.lt_of_lt_of_le (by omega) (hfar s hs))
    · exact Nat.ne_of_gt (Nat.lt_of_lt_of_le (by omega) (hfar s hs))

/-- A URL that is listed is the URL of a route with closeness zero. -/
theorem contains_eq {index : CallIndex} (h : index.Lists routes) (url : String) :
    index.routes.contains url = (firstAt routes url 0).isSome := by
  rw [Bool.eq_iff_iff, firstAt, List.find?_isSome, Catalog.contains, h.find?_eq]
  simp only [beq_iff_eq, closeness_eq_zero_iff]
  split
  · rename_i hmem
    exact iff_of_true rfl (List.mem_map.mp hmem)
  · rename_i hnone
    refine iff_of_false Bool.false_ne_true fun hmem => hnone ?_
    exact List.mem_map.mpr hmem

/-- **Look-up finds the path of the closest route.** -/
theorem match?_eq {index : CallIndex} (h : index.Lists routes) (url : String) :
    index.match? url = (closest? routes url).map (·.url) := by
  -- The first URL of the index with a property is that of the first route with it.
  have hfind (accepts : String → Bool) : index.routes.names.find? accepts =
      (routes.find? fun r => accepts r.url).map (·.url) := by
    rw [h.names_eq, find?_firstPerKey_id, List.find?_map]
    rfl
  unfold CallIndex.match? closest?
  simp only [hfind, contains_eq h]
  cases h₀ : firstAt routes url 0 with
  | some r =>
    have hr : closeness url r.url = 0 := by simpa using List.find?_some h₀
    rw [Option.isSome_some, if_pos rfl, Option.some_or, Option.map_some,
      closeness_eq_zero_iff.mp hr]
  | none =>
    have hne₀ := firstAt_eq_none_iff.mp h₀
    -- Without an equal path, the first route that fits is the first with closeness one.
    have hone : (routes.find? fun r => fits (properSegments r.url) (properSegments url)) =
        firstAt routes url 1 := by
      refine List.find?_congr fun r hr => ?_
      rw [Bool.eq_iff_iff, beq_iff_eq]
      exact (closeness_eq_one_iff (hne₀ r hr)).symm
    rw [Option.isSome_none, if_neg (by simp), Option.none_or, hone]
    cases h₁ : firstAt routes url 1 with
    | some r => rfl
    | none =>
      have hne₁ := firstAt_eq_none_iff.mp h₁
      -- Without one of these either, the first that the URL fits has closeness two.
      have htwo : (routes.find? fun r => fits (properSegments url) (properSegments r.url)) =
          firstAt routes url 2 := by
        refine List.find?_congr fun r hr => ?_
        rw [Bool.eq_iff_iff, beq_iff_eq]
        exact (closeness_eq_two_iff (hne₀ r hr) (hne₁ r hr)).symm
      rw [htwo]
      rfl

theorem match?_eq_some_iff {index : CallIndex} (h : index.Lists routes) {path : String} :
    index.match? url = some path ↔ ∃ r, Closest routes url r ∧ r.url = path := by
  rw [match?_eq h, Option.map_eq_some_iff]
  simp only [closest?_eq_some_iff]

theorem match?_eq_none_iff {index : CallIndex} (h : index.Lists routes) :
    index.match? url = none ↔ ∀ s ∈ routes, ¬ Matches url s.url := by
  rw [match?_eq h, Option.map_eq_none_iff, closest?_eq_none_iff]

end Lookup

/-! ## Judgement -/

/-- Whether a route is registered for the method, or for all methods. -/
def CallRoute.Serves (s : CallRoute) (method : String) : Prop :=
  s.method = method ∨ s.method = "ALL"

/-- What the judgement `r` of a request for a URL with a method says of the registered routes. -/
structure JudgedByClosest (routes : List CallRoute) (url method : String) (r : Reference) :
    Prop where
  /-- The request is valid exactly if the path of the closest route serves the method. -/
  valid_iff : r.valid = true ↔
    ∃ c, Closest routes url c ∧ ∃ s ∈ routes, s.url = c.url ∧ s.Serves method
  /-- The route is rejected exactly if none matches. -/
  route_iff : r.category = some .route ↔ ∀ s ∈ routes, ¬ Matches url s.url
  /-- The method is rejected exactly if the path of the closest route does not serve it. -/
  method_iff : r.category = some .httpMethod ↔
    ∃ c, Closest routes url c ∧ ∀ s ∈ routes, s.url = c.url → ¬ s.Serves method
  /-- What is valid is served by a route that matches. -/
  exists_of_valid : r.valid = true → ∃ s ∈ routes, Matches url s.url ∧ s.Serves method
  /-- What is served is valid if all routes that match have one path. -/
  valid_of_exists : (∀ s ∈ routes, ∀ t ∈ routes, Matches url s.url → Matches url t.url →
    s.url = t.url) → (∃ s ∈ routes, Matches url s.url ∧ s.Serves method) → r.valid = true

/-- The closest route is one of the routes. -/
theorem Closest.mem {routes : List CallRoute} {url : String} {r : CallRoute}
    (h : Closest routes url r) : r ∈ routes := by
  obtain ⟨before, after, hroutes, -⟩ := h.first
  rw [hroutes]
  exact List.mem_append_right _ List.mem_cons_self

theorem Closest.unique {routes : List CallRoute} {url : String} {r r' : CallRoute}
    (h : Closest routes url r) (h' : Closest routes url r') : r = r' :=
  Option.some.inj ((closest?_eq_some_iff.mpr h).symm.trans (closest?_eq_some_iff.mpr h'))

section Judge

variable {index : CallIndex} {routes : List CallRoute} {m : Mention} {method : String}
  {c : CallRoute}

theorem judgeCall_of_unmatched (h : index.Lists routes)
    (hnone : ∀ s ∈ routes, ¬ Matches m.ownerName s.url) :
    ∃ suggestion, judgeCall index m = m.reject .route suggestion := by
  unfold judgeCall
  rw [(match?_eq_none_iff h).mpr hnone]
  exact ⟨_, rfl⟩

/-- The methods of the path of the closest route admit a method exactly if a route serves it. -/
theorem admits_iff (h : index.Lists routes) (hne : method ≠ "") :
    (method = "" ∨ method ∈ index.methodsFor c.url ∨ "ALL" ∈ index.methodsFor c.url) ↔
      ∃ s ∈ routes, s.url = c.url ∧ s.Serves method := by
  rw [mem_methodsFor_iff h, mem_methodsFor_iff h]
  constructor
  · rintro (hempty | ⟨s, hs, hurl, hmethod⟩ | ⟨s, hs, hurl, hall⟩)
    · exact absurd hempty hne
    · exact ⟨s, hs, hurl, Or.inl hmethod⟩
    · exact ⟨s, hs, hurl, Or.inr hall⟩
  · rintro ⟨s, hs, hurl, hmethod | hall⟩
    · exact Or.inr (Or.inl ⟨s, hs, hurl, hmethod⟩)
    · exact Or.inr (Or.inr ⟨s, hs, hurl, hall⟩)

variable (h : index.Lists routes) (hm : m.method = some method) (hne : method ≠ "")
  (hc : Closest routes m.ownerName c)

include h hm hne hc

theorem judgeCall_of_served (hserved : ∃ s ∈ routes, s.url = c.url ∧ s.Serves method) :
    judgeCall index m = m.accept := by
  unfold judgeCall
  rw [(match?_eq_some_iff h).mpr ⟨c, hc, rfl⟩, hm]
  exact if_pos ((admits_iff h hne).mpr hserved)

theorem judgeCall_of_unserved (hserved : ¬ ∃ s ∈ routes, s.url = c.url ∧ s.Serves method) :
    ∃ suggestion, judgeCall index m = m.reject .httpMethod suggestion := by
  unfold judgeCall
  rw [(match?_eq_some_iff h).mpr ⟨c, hc, rfl⟩, hm]
  exact ⟨_, if_neg fun hadmits => hserved ((admits_iff h hne).mp hadmits)⟩

end Judge

/-- What is listed in an index is judged by the closest route. -/
theorem judgedByClosest_of_lists {index : CallIndex} {routes : List CallRoute} {m : Mention}
    {method : String} (h : index.Lists routes) (hm : m.method = some method) (hne : method ≠ "") :
    JudgedByClosest routes m.ownerName method (judgeCall index m) := by
  cases hclosest : closest? routes m.ownerName with
  | none =>
    -- Nothing matches: the route is rejected, and nothing else is said.
    have hnone := closest?_eq_none_iff.mp hclosest
    have habsent (c : CallRoute) (hc : Closest routes m.ownerName c) : False :=
      hnone c hc.mem hc.fits
    obtain ⟨suggestion, hjudge⟩ := judgeCall_of_unmatched h hnone
    rw [hjudge]
    exact
      { valid_iff := iff_of_false Bool.false_ne_true fun ⟨c, hc, _⟩ => habsent c hc
        route_iff := iff_of_true rfl hnone
        method_iff := iff_of_false nofun fun ⟨c, hc, _⟩ => habsent c hc
        exists_of_valid := fun hvalid => absurd hvalid Bool.false_ne_true
        valid_of_exists := fun _ ⟨s, hs, hmatch, _⟩ => absurd hmatch (hnone s hs) }
  | some c =>
    have hc := closest?_eq_some_iff.mp hclosest
    have hsome : ¬ ∀ s ∈ routes, ¬ Matches m.ownerName s.url := fun hnone =>
      hnone c hc.mem hc.fits
    -- The closest route is unique, so that what holds of one closest route holds of any.
    by_cases hserved : ∃ s ∈ routes, s.url = c.url ∧ s.Serves method
    · obtain ⟨s, hs, hurl, hmethod⟩ := hserved
      rw [judgeCall_of_served h hm hne hc ⟨s, hs, hurl, hmethod⟩]
      refine
        { valid_iff := iff_of_true rfl ⟨c, hc, s, hs, hurl, hmethod⟩
          route_iff := iff_of_false nofun hsome
          method_iff := iff_of_false nofun ?_
          exists_of_valid := fun _ => ⟨s, hs, hurl ▸ hc.fits, hmethod⟩
          valid_of_exists := fun _ _ => rfl }
      rintro ⟨c', hc', hunserved⟩
      obtain rfl := hc.unique hc'
      exact hunserved s hs hurl hmethod
    · obtain ⟨suggestion, hjudge⟩ := judgeCall_of_unserved h hm hne hc hserved
      rw [hjudge]
      refine
        { valid_iff := iff_of_false Bool.false_ne_true ?_
          route_iff := iff_of_false nofun hsome
          method_iff := iff_of_true rfl
            ⟨c, hc, fun s hs hurl hmethod => hserved ⟨s, hs, hurl, hmethod⟩⟩
          exists_of_valid := fun hvalid => absurd hvalid Bool.false_ne_true
          valid_of_exists := fun hone ⟨s, hs, hmatch, hmethod⟩ =>
            absurd ⟨s, hs, hone s hs c hc.mem hmatch hc.fits, hmethod⟩ hserved }
      rintro ⟨c', hc', hserved'⟩
      obtain rfl := hc.unique hc'
      exact hserved hserved'

/-- **The closest route decides.**  Whatever routes a project registers, in whatever order and under
whatever names of parameters, a request with a method is judged by what is registered for the path
of the closest route. -/
theorem judgedByClosest {p : Project} {tree : FileTree} {index : CallIndex} {m : Mention}
    {method : String} (h : CallIndex.ofProject p tree = .ok index) (hm : m.method = some method)
    (hne : method ≠ "") :
    JudgedByClosest (projectRoutes p tree index.framework) m.ownerName method
      (judgeCall index m) :=
  judgedByClosest_of_lists (lists_ofProject h) hm hne

/-! ## Two paths that match -/

/-- A project that registers one path twice, under two names of its parameter. -/
def overlapping : Project where
  files := ⟨[(["package.json"],
      .file (.text "\x7b\"dependencies\": \x7b\"express\": \"^4\"\x7d\x7d".toList)),
    (["app.js"],
      .file (.text "app.get('/users/:id', show);\napp.post('/users/:userId', save);\n".toList))]⟩
  directory := []

/-- The files of the project. -/
def overlappingTree : FileTree := ⟨["app.js", "package.json"]⟩

/-- A request of the second path. -/
def secondRequest : Mention := routeMention 0 (some "POST") "/users/5"

theorem exists_overlapping_index : ∃ index,
    CallIndex.ofProject overlapping overlappingTree = .ok index ∧
      index.framework = .express ∧ (judgeCall index secondRequest).valid = false := by
  have hread : ((CallIndex.ofProject overlapping overlappingTree).toOption.map fun index =>
      (index.framework, (judgeCall index secondRequest).valid)) = some (.express, false) := by
    decide +kernel
  obtain ⟨index, hindex, hread⟩ := Option.map_eq_some_iff.mp hread
  obtain ⟨hframework, hvalid⟩ := Prod.mk.inj hread
  exact ⟨index, eq_ok_of_toOption_eq_some hindex, hframework, hvalid⟩

theorem judgedByClosest_overlapping : ∃ index,
    CallIndex.ofProject overlapping overlappingTree = .ok index ∧
      secondRequest.method = some "POST" ∧ "POST" ≠ "" ∧
      JudgedByClosest (projectRoutes overlapping overlappingTree index.framework)
        secondRequest.ownerName "POST" (judgeCall index secondRequest) := by
  obtain ⟨index, hindex, -, -⟩ := exists_overlapping_index
  exact ⟨index, hindex, rfl, by decide, judgedByClosest hindex rfl (by decide)⟩

/-- **A more distant route does not help**: it is not enough that some route that matches is
registered for the method. -/
theorem not_judged_by_every_match : ¬ ∀ (p : Project) (tree : FileTree) (index : CallIndex)
    (m : Mention) (method : String), CallIndex.ofProject p tree = .ok index →
      m.method = some method → method ≠ "" →
      ((judgeCall index m).valid = true ↔
        ∃ s ∈ projectRoutes p tree index.framework,
          Matches m.ownerName s.url ∧ s.Serves method) := by
  intro hall
  obtain ⟨index, hindex, hframework, hvalid⟩ := exists_overlapping_index
  -- The second path matches and is registered for the method, but the first is as close.
  have hsecond : (⟨"POST", "/users/:userId", "app.js", none⟩ : CallRoute) ∈
      projectRoutes overlapping overlappingTree index.framework := by
    rw [hframework]
    decide +kernel
  have hmatch : Matches secondRequest.ownerName "/users/:userId" := by decide +kernel
  have hserved := (hall overlapping overlappingTree index secondRequest "POST" hindex rfl
    (by decide)).mpr ⟨_, hsecond, hmatch, Or.inl rfl⟩
  rw [hvalid] at hserved
  cases hserved

end PlanAudit.Routes
