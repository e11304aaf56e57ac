import Mathlib.Algebra.GroupWithZero.Nat
import PlanAudit.Proofs.Routes.Mounts

/-!
# No declared route is lost

The index of a project takes up every route that a source file declares, moves it below the mount
path of its file and lists it under the normalised URL that it then has.  On the way no route is
lost, none is entered twice and none is left under a URL that it no longer has: the lists of the
index, put one behind the other, are the declared routes in another order.

## Main definitions

* `declared`: the routes that the files of a project declare
* `CallIndex.Conserves`: the index lists these routes, each under its own URL, and nothing else

## Main results

* `perm_flatMap_filter`: what is sorted by distinct keys is only rearranged
* `conserves_of_lists`: an index that lists the registered routes conserves the declared ones
* `declarations_conserved`: every project with a framework has such an index
-/

namespace PlanAudit.Routes

open Text

/-! ## Sorting by a key -/

/-- **What is sorted by keys is only rearranged**, if the keys are distinct and none is missing. -/
theorem perm_flatMap_filter {α κ : Type} [DecidableEq κ] (key : α → κ) {keys : List κ} {l : List α}
    (hnodup : keys.Nodup) (h : ∀ a ∈ l, key a ∈ keys) :
    (keys.flatMap fun k => l.filter fun a => key a = k).Perm l := by
  induction keys generalizing l with
  | nil =>
    obtain rfl : l = [] := List.eq_nil_iff_forall_not_mem.mpr fun a ha => nomatch h a ha
    exact List.Perm.refl _
  | cons k keys ih =>
    obtain ⟨hfresh, hnodup⟩ := List.nodup_cons.mp hnodup
    -- The other keys sort what does not have the first.
    have hothers : ∀ k' ∈ keys, (l.filter fun a => key a = k') =
        (l.filter fun a => !decide (key a = k)).filter fun a => key a = k' := by
      intro k' hk'
      rw [List.filter_filter]
      refine List.filter_congr fun a _ => ?_
      by_cases ha : key a = k'
      · have hne : k' ≠ k := fun heq => hfresh (heq ▸ hk')
        simp [ha, hne]
      · simp [ha]
    have hrest : (keys.flatMap fun k' => l.filter fun a => key a = k').Perm
        (l.filter fun a => !decide (key a = k)) := by
      rw [List.flatMap_congr hothers]
      refine ih hnodup fun a ha => ?_
      obtain ⟨ha, hne⟩ := List.mem_filter.mp ha
      exact (List.mem_cons.mp (h a ha)).resolve_left fun heq => by simp [heq] at hne
    rw [List.flatMap_cons]
    exact (hrest.append_left _).trans (List.filter_append_perm (fun a => decide (key a = k)) l)

/-! ## Declared routes and the index -/

/-- The routes that the source files of a project declare, in the order in which they are read. -/
def declared (p : Project) (tree : FileTree) : List CallRoute :=
  (routerFiles p tree).flatMap fun f => declaredRoutes f.content f.path

/-- A declared route as it is listed: below the mount path of its file. -/
def listedAs (p : Project) (tree : FileTree) (d : CallRoute) : CallRoute :=
  mounted (mountPaths (routerFiles p tree) tree) d

/-- The index lists the routes that the files of the project declare, each under its own URL, and
nothing else. -/
structure CallIndex.Conserves (index : CallIndex) (p : Project) (tree : FileTree) : Prop where
  /-- A route is listed with its method and its file, under the path that is normalised behind a
  mount path, or behind nothing. -/
  placed : ∀ d ∈ declared p tree, (listedAs p tree d).method = d.method ∧
    (listedAs p tree d).filePath = d.filePath ∧ (listedAs p tree d).url =
      normalizePath (lastMount (mountLinks (routerFiles p tree) tree) d.filePath ++ d.url)
  /-- The lists hold the declared routes, each as often as it is declared. -/
  perm : (index.routes.entries.flatMap (·.2)).Perm ((declared p tree).map (listedAs p tree))
  /-- A declared route stands in exactly one list, and that is the list of its URL. -/
  single : ∀ d ∈ declared p tree, ∃ routes,
    ((listedAs p tree d).url, routes) ∈ index.routes.entries ∧
      ∀ e ∈ index.routes.entries, listedAs p tree d ∈ e.2 ↔
        e = ((listedAs p tree d).url, routes)
  /-- A list holds the routes with its URL, in the order in which they are declared. -/
  own : ∀ e ∈ index.routes.entries,
    e.2 = ((declared p tree).map (listedAs p tree)).filter fun r => r.url = e.1
  /-- No list is empty. -/
  inhabited : ∀ e ∈ index.routes.entries, e.2 ≠ []
  /-- The URLs are normalised, without repeated slashes and without trailing ones. -/
  normal : ∀ e ∈ index.routes.entries, normalizePath e.1 = e.1 ∧ IsNormal e.1
  /-- As many routes are listed as are declared. -/
  total : (index.routes.entries.map fun e => e.2.length).sum = (declared p tree).length

section Project

variable {p : Project} {tree : FileTree} {index : CallIndex}

theorem url_listedAs (d : CallRoute) : (listedAs p tree d).url =
    normalizePath (lastMount (mountLinks (routerFiles p tree) tree) d.filePath ++ d.url) :=
  url_mounted d

theorem registered_eq_map_declared :
    registered (routerFiles p tree) tree = (declared p tree).map (listedAs p tree) := rfl

/-- The list of a URL is what was registered for it. -/
theorem CallIndex.Lists.mem_entries_iff {routes : List CallRoute} (h : index.Lists routes)
    {e : String × List CallRoute} : e ∈ index.routes.entries ↔
      e.1 ∈ routes.map (·.url) ∧ e.2 = routes.filter fun r => r.url = e.1 := by
  obtain ⟨url, list⟩ := e
  rw [← Catalog.find?_eq_some_iff, h.find?_eq]
  split
  · rename_i hurl
    simp [hurl, eq_comm]
  · rename_i hurl
    simp [hurl]

/-- The lists of an index, one behind the other. -/
theorem CallIndex.Lists.flatMap_entries {routes : List CallRoute} (h : index.Lists routes) :
    index.routes.entries.flatMap (·.2) =
      index.routes.names.flatMap fun url => routes.filter fun r => r.url = url := by
  rw [Catalog.names, List.flatMap_map]
  exact List.flatMap_congr fun e he => (h.mem_entries_iff.mp he).2

/-- **An index that lists the registered routes conserves the declared ones.** -/
theorem conserves_of_lists (h : index.Lists (registered (routerFiles p tree) tree)) :
    index.Conserves p tree := by
  rw [registered_eq_map_declared] at h
  have hperm : (index.routes.entries.flatMap (·.2)).Perm
      ((declared p tree).map (listedAs p tree)) := by
    rw [h.flatMap_entries, h.names_eq]
    refine perm_flatMap_filter CallRoute.url (nodup_firstPerKey_id _) fun r hr => ?_
    exact (mem_firstPerKey_id).mpr (List.mem_map_of_mem hr)
  have hnormal : ∀ url ∈ ((declared p tree).map (listedAs p tree)).map (·.url), IsNormal url := by
    intro url hurl
    obtain ⟨r, hr, rfl⟩ := List.mem_map.mp hurl
    obtain ⟨d, -, rfl⟩ := List.mem_map.mp hr
    rw [url_listedAs]
    exact isNormal_normalizePath _
  refine ⟨fun d _ => ⟨(method_mounted _ d).1, (method_mounted _ d).2, url_listedAs d⟩, hperm,
    fun d hd => ?_, fun e he => (h.mem_entries_iff.mp he).2, fun e he => ?_, fun e he => ?_, ?_⟩
  · -- A route in a list has the URL of the list, and each URL has one list.
    have hmem : listedAs p tree d ∈ (declared p tree).map (listedAs p tree) :=
      List.mem_map_of_mem hd
    refine ⟨((declared p tree).map (listedAs p tree)).filter fun r =>
      r.url = (listedAs p tree d).url, h.mem_entries_iff.mpr ⟨List.mem_map_of_mem hmem, rfl⟩,
      fun e he => ?_⟩
    obtain ⟨-, hlist⟩ := h.mem_entries_iff.mp he
    rw [hlist, List.mem_filter, decide_eq_true_eq]
    constructor
    · rintro ⟨-, hurl⟩
      exact Prod.ext hurl.symm (by rw [hlist, hurl])
    · rintro rfl
      exact ⟨hmem, rfl⟩
  · obtain ⟨hurl, hlist⟩ := h.mem_entries_iff.mp he
    obtain ⟨r, hr, hre⟩ := List.mem_map.mp hurl
    exact hlist ▸ List.ne_nil_of_mem (List.mem_filter.mpr ⟨hr, by simpa using hre⟩)
  · have he := hnormal e.1 (h.mem_entries_iff.mp he).1
    exact ⟨he.normalizePath_eq, he⟩
  · have hlength := hperm.length_eq
    rwa [List.length_flatMap, List.length_map] at hlength

/-- **No declared route is lost**: every project with a framework has an index, which lists each
route that its source files declare once, under the normalised URL of the route.  Normalising a
second time changes nothing, whatever the path is. -/
theorem declarations_conserved :
    (∀ (p : Project) (tree : FileTree) (framework : Framework),
      Framework.ofProject p = .ok framework → framework ≠ .neither →
        ∃ index, CallIndex.ofProject p tree = .ok index ∧ index.framework = framework ∧
          index.Conserves p tree) ∧
      ∀ url, normalizePath (normalizePath url) = normalizePath url := by
  refine ⟨fun p tree framework hframework hne => ?_, normalizePath_normalizePath⟩
  obtain ⟨hlists, heq⟩ := lists_ofFiles framework (routerFiles p tree) tree
  refine ⟨.ofFiles framework (routerFiles p tree) tree, ?_, heq, conserves_of_lists hlists⟩
  refine map_eq_ok_iff.mpr ⟨framework, hframework, ?_⟩
  cases framework with
  | neither => exact absurd rfl hne
  | express | fastify | both => rfl

end Project

/-! ### A router with slashes to spare -/

/-- A project that declares a path three times, with slashes in various places, below a mount path
that ends in a slash. -/
def slashes : Project where
  files := ⟨[(["package.json"],
      .file (.text "\x7b\"dependencies\": \x7b\"fastify\": \"^4\"\x7d\x7d".toList)),
    (["app.js"], .file (.text "const api = require('./api');\napp.use('/v1/', api);\n".toList)),
    (["api.js"], .file (.text
      ("api.get('/users/', list);\napi.post('//users', save);\napi.get('/users', list);\n" ++
        "api.get('/', root);\n").toList))]⟩
  directory := []

/-- The files of the project. -/
def slashesTree : FileTree := ⟨["api.js", "app.js", "package.json"]⟩

theorem declarations_conserved_slashes :
    Framework.ofProject slashes = .ok .fastify ∧ Framework.fastify ≠ .neither ∧
      (declared slashes slashesTree).map (fun d => (d.url, (listedAs slashes slashesTree d).url)) =
        [("/users/", "/v1/users"), ("//users", "/v1/users"), ("/users", "/v1/users"),
          ("/", "/v1")] ∧
      ∃ index, CallIndex.ofProject slashes slashesTree = .ok index ∧ index.framework = .fastify ∧
        index.Conserves slashes slashesTree :=
  have hframework : Framework.ofProject slashes = .ok .fastify :=
    eq_ok_of_toOption_eq_some (by decide +kernel)
  ⟨hframework, by decide, by decide +kernel,
    declarations_conserved.1 slashes slashesTree .fastify hframework (by decide)⟩

end PlanAudit.Routes
