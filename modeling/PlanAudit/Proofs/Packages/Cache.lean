import PlanAudit.Packages.Checker

/-!
# What the cache of exports changes

The exports of a package are remembered by the place of its declaration file.  What they are depends
on more: exports that are passed on from another package are looked for from the directory of the
package that was asked for.  Several packages can have one declaration file, and then the answer for
the first of them is given for all.

## Main definitions

* `Request`, `freshAnswer`: a request for exports, and its answer without anything remembered
* `answers`, `cacheAfter`: the answers to requests one after the other, and what is remembered then
* `Agree`: a request does not spoil the answer to a later one

## Main results

* `answers_eq_map_fresh_iff`: the answers are those without a cache exactly if the requests agree
* `agree_of_same_directory`: requests for one declaration file from one directory of packages agree
* `cache_transparent_iff`: the same with the checks that follow
* `answers_depend_on_order`: two packages with one declaration file that do not agree
-/

namespace PlanAudit.Packages

/-! ## Requests -/

/-- A request for the exports of a package. -/
structure Request where
  /-- The directory of packages. -/
  packages : Path
  /-- The name of the package. -/
  name : String
  deriving DecidableEq, Repr

section Requests

variable (files : FileSystem)

/-- The answer to a request, and what is remembered then. -/
def answer (cache : ApiCache) (q : Request) : Except Fault (Option Api) × ApiCache :=
  resolveApi files q.packages q.name cache

/-- The answer to a request where nothing is remembered. -/
def freshAnswer (q : Request) : Except Fault (Option Api) := (answer files .empty q).1

/-- The answers to requests one after the other. -/
def answers : ApiCache → List Request → List (Except Fault (Option Api))
  | _, [] => []
  | cache, q :: rest => (answer files cache q).1 :: answers (answer files cache q).2 rest

/-- What is remembered after requests one after the other. -/
def cacheAfter : ApiCache → List Request → ApiCache
  | cache, [] => cache
  | cache, q :: rest => cacheAfter (answer files cache q).2 rest

/-- The name under which the answer to a request is remembered, if the package has a declaration
file. -/
def keyOf? (q : Request) : Option String :=
  match packageTypings? files q.packages q.name with
  | .ok (some entry) => some (cacheKey files entry)
  | _ => none

/-- The first request does not spoil the answer to the second: if it is remembered under the same
name, then the answer to the second is the same without it. -/
def Agree (q q' : Request) : Prop :=
  ∀ key api, keyOf? files q = some key → keyOf? files q' = some key →
    freshAnswer files q = .ok (some api) → freshAnswer files q' = .ok (some api)

/-- What is remembered with the answer to a request added, if it has one. -/
def remember (cache : ApiCache) (key : String) (a : Except Fault (Option Api)) : ApiCache :=
  match a with
  | .ok (some api) => cache.insert key api
  | _ => cache

end Requests

/-! ## One request -/

section Answer

variable {files : FileSystem} {cache : ApiCache} {q : Request} {key : String} {api : Api}

/-- Without a declaration file nothing is looked up. -/
theorem answer_of_no_key (h : keyOf? files q = none) :
    answer files cache q = (freshAnswer files q, cache) := by
  unfold keyOf? at h
  unfold freshAnswer answer resolveApi
  cases htypings : packageTypings? files q.packages q.name with
  | error fault => rfl
  | ok found =>
    cases found with
    | none => rfl
    | some entry =>
      rw [htypings] at h
      cases h

/-- What is remembered is the answer. -/
theorem answer_of_hit (h : keyOf? files q = some key) (hit : cache.find? key = some api) :
    answer files cache q = (.ok (some api), cache) := by
  unfold keyOf? at h
  split at h
  · rename_i entry htypings
    obtain rfl := Option.some.inj h
    unfold answer resolveApi
    rw [htypings]
    simp only [hit]
  · cases h

/-- What is not remembered is read afresh. -/
theorem answer_of_miss (h : keyOf? files q = some key) (miss : cache.find? key = none) :
    answer files cache q = (freshAnswer files q, remember cache key (freshAnswer files q)) := by
  unfold keyOf? at h
  split at h
  · rename_i entry htypings
    obtain rfl := Option.some.inj h
    unfold freshAnswer answer resolveApi
    rw [htypings]
    simp only [miss, Catalog.find?_empty]
    cases files.readText? entry with
    | none => rfl
    | some content =>
      simp only
      cases apiOf files (q.packages.join q.name) maxExportDepth false entry content with
      | error fault => rfl
      | ok api => rfl
  · cases h

/-- What is remembered stays. -/
theorem find?_answer_of_some (h : cache.find? key = some api) :
    (answer files cache q).2.find? key = some api := by
  cases hkey : keyOf? files q with
  | none =>
    rw [answer_of_no_key hkey]
    exact h
  -- Something is added only under a name that was free.
  | some other =>
    cases hfound : cache.find? other with
    | some known =>
      rw [answer_of_hit hkey hfound]
      exact h
    | none =>
      have hne : key ≠ other := by
        rintro rfl
        rw [h] at hfound
        cases hfound
      rw [answer_of_miss hkey hfound]
      unfold remember
      split
      · rw [Catalog.find?_insert_of_ne cache hne]
        exact h
      · exact h

/-- What is found after a request was remembered before or is the answer to the request. -/
theorem find?_answer (h : (answer files cache q).2.find? key = some api) :
    cache.find? key = some api ∨
      (keyOf? files q = some key ∧ freshAnswer files q = .ok (some api)) := by
  cases hkey : keyOf? files q with
  | none =>
    rw [answer_of_no_key hkey] at h
    exact Or.inl h
  | some other =>
    cases hfound : cache.find? other with
    | some known =>
      rw [answer_of_hit hkey hfound] at h
      exact Or.inl h
    | none =>
      rw [answer_of_miss hkey hfound] at h
      unfold remember at h
      split at h
      · rename_i read hread
        by_cases hsame : key = other
        · subst hsame
          rw [Catalog.find?_insert_self] at h
          obtain rfl := Option.some.inj h
          exact Or.inr ⟨rfl, hread⟩
        · rw [Catalog.find?_insert_of_ne cache hsame] at h
          exact Or.inl h
      · exact Or.inl h

end Answer

/-! ## Requests that agree -/

/-- Everything that is remembered is the answer to one of the requests. -/
def Remembers (files : FileSystem) (past : List Request) (cache : ApiCache) : Prop :=
  ∀ key api, cache.find? key = some api →
    ∃ q ∈ past, keyOf? files q = some key ∧ freshAnswer files q = .ok (some api)

section Agreement

variable {files : FileSystem} {cache : ApiCache} {past qs : List Request} {q : Request}

theorem remembers_empty (files : FileSystem) (past : List Request) :
    Remembers files past .empty := by
  intro key api h
  cases h

theorem Remembers.append (h : Remembers files past cache) (qs : List Request) :
    Remembers files (past ++ qs) cache := by
  intro key api hfound
  obtain ⟨p, hp, hread⟩ := h key api hfound
  exact ⟨p, List.mem_append_left _ hp, hread⟩

theorem Remembers.answer (h : Remembers files past cache) (q : Request) :
    Remembers files (past ++ [q]) (answer files cache q).2 := by
  intro key api hfound
  rcases find?_answer hfound with hold | ⟨hkey, hread⟩
  · obtain ⟨p, hp, hkey, hread⟩ := h key api hold
    exact ⟨p, List.mem_append_left _ hp, hkey, hread⟩
  · exact ⟨q, List.mem_append_right _ List.mem_cons_self, hkey, hread⟩

theorem Remembers.cacheAfter (h : Remembers files past cache) (qs : List Request) :
    Remembers files (past ++ qs) (cacheAfter files cache qs) := by
  induction qs generalizing past cache with
  | nil =>
    rw [List.append_nil]
    exact h
  | cons q rest ih =>
    rw [List.append_cons]
    exact ih (h.answer q)

/-- **A request that agrees with those before it** is answered as if there had been none. -/
theorem answer_eq_fresh (h : Remembers files past cache) (hagree : ∀ p ∈ past, Agree files p q) :
    (answer files cache q).1 = freshAnswer files q := by
  cases hkey : keyOf? files q with
  | none => rw [answer_of_no_key hkey]
  | some key =>
    cases hfound : cache.find? key with
    | none => rw [answer_of_miss hkey hfound]
    | some api =>
      -- What is found was the answer to an earlier request, with which this one agrees.
      obtain ⟨p, hp, hpkey, hread⟩ := h key api hfound
      rw [answer_of_hit hkey hfound, hagree p hp key api hpkey hkey hread]

theorem answers_eq_fresh (h : Remembers files past cache)
    (hpairs : (past ++ qs).Pairwise (Agree files)) :
    answers files cache qs = qs.map (freshAnswer files) := by
  -- Every request that was answered joins the past of those that follow.
  induction qs generalizing past cache with
  | nil => rfl
  | cons q rest ih =>
    have hq : ∀ p ∈ past, Agree files p q := fun p hp =>
      (List.pairwise_append.mp hpairs).2.2 p hp q List.mem_cons_self
    rw [List.append_cons] at hpairs
    rw [answers, List.map_cons, answer_eq_fresh h hq, ih (h.answer q) hpairs]

/-- What is remembered under a name is the answer to every later request with that name. -/
theorem fresh_of_remembered {key : String} {api : Api} (hfound : cache.find? key = some api)
    (h : answers files cache qs = qs.map (freshAnswer files)) (hq : q ∈ qs)
    (hkey : keyOf? files q = some key) : freshAnswer files q = .ok (some api) := by
  induction qs generalizing cache with
  | nil => cases hq
  | cons first rest ih =>
    obtain ⟨hfirst, hrest⟩ := List.cons.inj h
    -- Up to the request what is remembered stays, and then it is the answer.
    rcases List.mem_cons.mp hq with rfl | hq
    · rw [← hfirst, answer_of_hit hkey hfound]
    · exact ih (find?_answer_of_some hfound) hrest hq

theorem pairwise_agree_of_answers (h : answers files cache qs = qs.map (freshAnswer files)) :
    qs.Pairwise (Agree files) := by
  induction qs generalizing cache with
  | nil => exact List.Pairwise.nil
  | cons q rest ih =>
    obtain ⟨hfirst, hrest⟩ := List.cons.inj h
    refine List.Pairwise.cons (fun q' hq' => ?_) (ih hrest)
    intro key api hkey hkey' hread
    -- Afterwards the answer to the first request is remembered, whether it was before or not.
    have hremembered : (answer files cache q).2.find? key = some api := by
      cases hfound : cache.find? key with
      | some known =>
        rw [answer_of_hit hkey hfound] at hfirst ⊢
        rw [hread] at hfirst
        obtain rfl := Option.some.inj (Except.ok.inj hfirst)
        exact hfound
      | none =>
        rw [answer_of_miss hkey hfound, hread]
        exact Catalog.find?_insert_self cache key api
    exact fresh_of_remembered hremembered hrest hq' hkey'

/-- **The answers are those without a cache** exactly if no request spoils a later one. -/
theorem answers_eq_map_fresh_iff (files : FileSystem) (qs : List Request) :
    answers files .empty qs = qs.map (freshAnswer files) ↔ qs.Pairwise (Agree files) :=
  ⟨pairwise_agree_of_answers, fun h => answers_eq_fresh (remembers_empty files []) h⟩

end Agreement

/-! ## Where packages are looked for -/

section Directory

variable {files : FileSystem} {package package' : Path}

/-- Of the directory of a package only the packages above it count. -/
theorem exportSource?_congr (h : packagesAbove? files package = packagesAbove? files package')
    (specifier : String) (file : Path) (inForeign : Bool) :
    exportSource? files specifier file package inForeign =
      exportSource? files specifier file package' inForeign := by
  unfold exportSource? foreignSource?
  rw [h]

theorem apiOf_congr (h : packagesAbove? files package = packagesAbove? files package')
    (depth : Nat) (inForeign : Bool) (file : Path) (content : List Char) :
    apiOf files package depth inForeign file content =
      apiOf files package' depth inForeign file content := by
  -- Every file on the way is read with the same packages above.
  induction depth generalizing inForeign file content with
  | zero => rfl
  | succ depth ih =>
    simp only [apiOf, exportSource?_congr h, ih]

/-- **Requests agree** if they lead to one declaration file and find other packages in one
directory. -/
theorem agree_of_same_directory {q q' : Request}
    (hentry : packageTypings? files q.packages q.name = packageTypings? files q'.packages q'.name)
    (habove : packagesAbove? files (q.packages.join q.name) =
      packagesAbove? files (q'.packages.join q'.name)) : Agree files q q' := by
  intro key api _ _ hread
  -- The file that is read is the same, and so is where it looks for other packages.
  rw [← hread]
  unfold freshAnswer answer resolveApi
  simp only [hentry, apiOf_congr habove]

end Directory

/-! ## Checks -/

section Check

/-- The exports found for one more package, given the answer to the request for it. -/
def collect (apis : Except Fault (Catalog Api)) (name : String)
    (a : Except Fault (Option Api)) : Except Fault (Catalog Api) :=
  apis.bind fun apis => a.map fun found => (found.map (apis.insert name)).getD apis

variable {files : FileSystem} {packages : Path}

/-- One more package is asked for, unless there was a fault. -/
def resolveStep (files : FileSystem) (packages : Path)
    (acc : Except Fault (Catalog Api) × ApiCache) (name : String) :
    Except Fault (Catalog Api) × ApiCache :=
  match acc with
  | (.error fault, cache) => (.error fault, cache)
  | (.ok apis, cache) =>
    (collect (.ok apis) name (answer files cache ⟨packages, name⟩).1,
      (answer files cache ⟨packages, name⟩).2)

theorem resolveApis_eq_foldl (names : List String) (cache : ApiCache) :
    resolveApis files packages names cache =
      names.foldl (resolveStep files packages) (.ok .empty, cache) := by
  unfold resolveApis
  -- The steps are the same: a fault, an answer without exports, or exports.
  congr 1
  funext acc name
  obtain ⟨apis, cache⟩ := acc
  cases apis with
  | error fault => rfl
  | ok apis =>
    unfold resolveStep answer
    simp only
    split
    · rename_i h
      rw [h]
      rfl
    · rename_i h
      rw [h]
      rfl
    · rename_i h
      rw [h]
      rfl

/-- Where requests agree with those before them, the exports of several packages are put together
from their fresh answers. -/
theorem fst_foldl_resolveStep {past : List Request} {names : List String} {cache : ApiCache}
    (h : Remembers files past cache)
    (hpairs : (past ++ names.map (Request.mk packages)).Pairwise (Agree files))
    (apis : Except Fault (Catalog Api)) :
    (names.foldl (resolveStep files packages) (apis, cache)).1 =
      names.foldl (fun apis name => collect apis name (freshAnswer files ⟨packages, name⟩))
        apis := by
  induction names generalizing past cache apis with
  | nil => rfl
  | cons name rest ih =>
    rw [List.map_cons, List.append_cons] at hpairs
    have hq : ∀ p ∈ past, Agree files p ⟨packages, name⟩ := fun p hp =>
      (List.pairwise_append.mp (List.pairwise_append.mp hpairs).1).2.2 p hp _
        List.mem_cons_self
    rw [List.foldl_cons, List.foldl_cons]
    -- After a fault nothing more is asked for, which the past may still list as if it were.
    cases apis with
    | error fault => exact ih (h.append _) hpairs (.error fault)
    | ok apis =>
      rw [resolveStep, ih (h.answer _) hpairs, answer_eq_fresh h hq]

/-- The requests that a check of an audit makes. -/
def requestsOf (audit : Audit) : List Request :=
  (boundPackages audit.plan).map (Request.mk audit.project.packages)

/-- **A check does not depend on what was asked before** it, if no request that was made before or
belongs to the check spoils a later one. -/
theorem run_apiChecker_cacheAfter {audit : Audit} {past : List Request}
    (h : (past ++ requestsOf audit).Pairwise (Agree audit.project.files)) :
    (apiChecker.run audit (cacheAfter audit.project.files .empty past)).1 =
      (apiChecker.run audit .empty).1 := by
  have hpast : Remembers audit.project.files past (cacheAfter audit.project.files .empty past) :=
    (remembers_empty audit.project.files []).cacheAfter past
  have hown : (requestsOf audit).Pairwise (Agree audit.project.files) :=
    (List.pairwise_append.mp h).2.1
  -- Both caches remember answers only, so both give the fresh ones.
  have hresolve : (resolveApis audit.project.files audit.project.packages
      (boundPackages audit.plan) (cacheAfter audit.project.files .empty past)).1 =
      (resolveApis audit.project.files audit.project.packages
        (boundPackages audit.plan) .empty).1 := by
    rw [resolveApis_eq_foldl, resolveApis_eq_foldl, fst_foldl_resolveStep hpast h,
      fst_foldl_resolveStep (remembers_empty audit.project.files []) hown]
  simp only [apiChecker]
  split
  · rfl
  · exact congrArg (·.bind (apiOutcome audit.plan)) hresolve

end Check

/-! ## Transparency -/

/-- **The cache is transparent exactly for requests that agree**: the answers to requests one after
the other are those without a cache if and only if no request spoils a later one, and then a check
that follows on them is not changed by them either. -/
theorem cache_transparent_iff (files : FileSystem) (qs : List Request) :
    (answers files .empty qs = qs.map (freshAnswer files) ↔ qs.Pairwise (Agree files)) ∧
    ∀ audit : Audit, audit.project.files = files →
      (qs ++ requestsOf audit).Pairwise (Agree files) →
      (apiChecker.run audit (cacheAfter files .empty qs)).1 = (apiChecker.run audit .empty).1 := by
  refine ⟨answers_eq_map_fresh_iff files qs, ?_⟩
  rintro audit rfl h
  exact run_apiChecker_cacheAfter h

/-! ## One declaration file for two packages -/

/-- A manifest with one field. -/
def sampleManifest (field value : String) : Entry :=
  .file (.text ("\x7b\"" ++ field ++ "\": \"" ++ value ++ "\"\x7d").toList)

/-- A package without declarations, with its companion.  The companion passes on the exports of a
third package, of which the first holds a copy of its own. -/
def sharedTypings : FileSystem :=
  ⟨[(["node_modules"], .directory),
    (["node_modules", "a"], .directory),
    (["node_modules", "a", "package.json"], sampleManifest "main" "index.js"),
    (["node_modules", "a", "node_modules"], .directory),
    (["node_modules", "a", "node_modules", "dep"], .directory),
    (["node_modules", "a", "node_modules", "dep", "package.json"],
      sampleManifest "types" "index.d.ts"),
    (["node_modules", "a", "node_modules", "dep", "index.d.ts"],
      .file (.text "export const inner: number;\n".toList)),
    (["node_modules", "dep"], .directory),
    (["node_modules", "dep", "package.json"], sampleManifest "types" "index.d.ts"),
    (["node_modules", "dep", "index.d.ts"],
      .file (.text "export const outer: number;\n".toList)),
    (["node_modules", "@types"], .directory),
    (["node_modules", "@types", "a"], .directory),
    (["node_modules", "@types", "a", "package.json"], sampleManifest "types" "index.d.ts"),
    (["node_modules", "@types", "a", "index.d.ts"],
      .file (.text "export * from 'dep';\n".toList))]⟩

/-- The names in an answer. -/
def exportsOf (a : Except Fault (Option Api)) : List String :=
  ((a.toOption.bind id).map (·.exports)).getD []

/-- **The cache is not transparent**: after the companion is asked for, the package gets the exports
of the companion. -/
theorem answers_depend_on_order : ¬ ∀ (files : FileSystem) (qs : List Request),
    answers files .empty qs = qs.map (freshAnswer files) := by
  intro hall
  have hanswers := congrArg (List.map exportsOf)
    (hall sharedTypings [⟨["node_modules"], "@types/a"⟩, ⟨["node_modules"], "a"⟩])
  have hfirst : (answers sharedTypings .empty
      [⟨["node_modules"], "@types/a"⟩, ⟨["node_modules"], "a"⟩]).map exportsOf =
        [["outer"], ["outer"]] := by decide +kernel
  have hfresh : (([⟨["node_modules"], "@types/a"⟩, ⟨["node_modules"], "a"⟩] : List Request).map
      (freshAnswer sharedTypings)).map exportsOf = [["outer"], ["inner"]] := by decide +kernel
  rw [hfirst, hfresh] at hanswers
  exact absurd hanswers (by decide)

end PlanAudit.Packages
