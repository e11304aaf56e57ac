import Mathlib.Data.Finset.Max
import Mathlib.Logic.Relation
import PlanAudit.Proofs.Pattern.Captures
import PlanAudit.Proofs.Routes.Closest
import PlanAudit.Proofs.Routes.Normalized

/-!
# Mounted routers

A router may be mounted several times, and in files whose routers are mounted in turn.  Its routes
are then served under every chain of mounts that leads to it from a file that is not mounted itself.
The index keeps one mount of each file, the last, and no chains: it has the routes of a file under a
chain exactly if the paths of the chain, one after the other, have the segments of that last mount.

## Main definitions

* `mountLinks`: which file mounts which, and on what path
* `ServedBelow`: the paths below which the routes of a file are served
* `CallIndex.Holds`: a route is listed under a URL
* `NoMountLost`: every route is listed under every chain

## Main results

* `holds_chain_iff`: under which chains the routes of a file are listed
* `noMountLost_iff`: when no mount is lost
* `noMountLost_of_flat`: none is lost if every file is mounted once, by a file that is not mounted
* `mount_lost`: without cycles a mount may be lost
-/

namespace PlanAudit.Routes

open Text Pattern

/-! ## Chains of mounts -/

/-- A file mounts the router of another. -/
structure MountLink where
  /-- The file that mounts it. -/
  parent : String
  /-- The path on which it is mounted. -/
  path : String
  /-- The file of the router. -/
  child : String
  deriving DecidableEq, Repr

/-- The mounts of all files that lead to a file, in the order in which they are read. -/
def mountLinks (files : List RouterFile) (tree : FileTree) : List MountLink :=
  files.flatMap fun f =>
    (mounts f.content f.path).filterMap fun m =>
      (resolveRouter? f.content m.routerVariable f.path tree).map fun target =>
        ⟨f.path, m.path, target⟩

/-- The routes of the file are served below the path: the paths of a chain of mounts, one after the
other, from a file that is not mounted down to this one. -/
inductive ServedBelow (links : List MountLink) : String → String → Prop
  | unmounted {file : String} (h : ∀ l ∈ links, l.child ≠ file) : ServedBelow links "" file
  | mounted {above : String} {l : MountLink} (h : l ∈ links)
      (parent : ServedBelow links above l.parent) : ServedBelow links (above ++ l.path) l.child

/-- No file mounts itself, whether directly or through others. -/
def Acyclic (links : List MountLink) : Prop :=
  ∀ file, ¬ Relation.TransGen (fun a b => ∃ l ∈ links, l.parent = a ∧ l.child = b) file file

/-- The path of the last mount of a file; empty if it is not mounted. -/
def lastMount (links : List MountLink) (file : String) : String :=
  ((links.filter fun l => l.child = file).getLast?.map MountLink.path).getD ""

/-- A route is listed under a URL. -/
def CallIndex.Holds (index : CallIndex) (route : CallRoute) (url : String) : Prop :=
  ∃ r ∈ (index.routes.find? url).getD [], r.method = route.method ∧ r.filePath = route.filePath

instance (index : CallIndex) (route : CallRoute) (url : String) :
    Decidable (index.Holds route url) :=
  inferInstanceAs (Decidable (∃ r ∈ (index.routes.find? url).getD [], _))

/-- Every route that a file registers is listed under every chain of mounts that leads to the
file. -/
def NoMountLost (p : Project) (tree : FileTree) (index : CallIndex) : Prop :=
  ∀ f ∈ routerFiles p tree, ∀ d ∈ declaredRoutes f.content f.path,
    ∀ above, ServedBelow (mountLinks (routerFiles p tree) tree) above f.path →
      index.Holds d (normalizePath (above ++ d.url))

/-! ## Paths that are written -/

/-- A text that starts with a slash. -/
def SlashFirst (w : List Char) : Prop := w.head? = some '/'

/-- What a quoted path records starts with a slash. -/
theorem recordsOnly_quotedUrl (index : Nat) :
    (quotedUrl index).RecordsOnly index SlashFirst := by
  refine ⟨⟨trivial, ⟨trivial, trivial⟩, fun _ c d w hd hw => ?_⟩, trivial⟩
  -- The first character that is read is the slash.
  obtain ⟨e, he, hde⟩ := mem_outcomes_append.mp hd
  obtain ⟨v, hv, -⟩ := exists_reads (readsOnly_true _) e d hde
  have hboth := (reads_of_mem_char he).trans hv
  rw [← hw.take_eq, hboth.take_eq]
  rfl

theorem recordsOnly_mountCall : mountCall.RecordsOnly 1 SlashFirst := by
  simp [mountCall, name, word, plus, blanks, Pattern.star, char, wordEdge, recordsOnly_quotedUrl]

theorem recordsOnly_routeCall : routeCall.RecordsOnly 2 SlashFirst := by
  simp [routeCall, name, word, plus, blanks, Pattern.star, char, wordEdge, recordsOnly_quotedUrl]

theorem recordsOnly_urlEntry : urlEntry.RecordsOnly 1 SlashFirst := by
  simp [urlEntry, blanks, Pattern.star, char, recordsOnly_quotedUrl]

theorem rooted_of_group {m : Match} {index : Nat}
    (h : m.group index = [] ∨ SlashFirst (m.group index)) : Rooted (m.name index) := by
  intro c hc
  rw [Match.name, String.toList_ofList] at hc
  rcases h with h | h
  · rw [h] at hc
    cases hc
  · exact (Option.some.inj (h.symm.trans hc)).symm

theorem rooted_of_mem_mounts {content : List Char} {file : String} {m : Mount}
    (h : m ∈ mounts content file) : Rooted m.path := by
  obtain ⟨found, hfound, rfl⟩ := List.mem_map.mp h
  exact rooted_of_group (group_of_mem_findAll recordsOnly_mountCall hfound)

theorem rooted_of_mem_declaredRoutes {content : List Char} {file : String} {d : CallRoute}
    (h : d ∈ declaredRoutes content file) : Rooted d.url := by
  rcases List.mem_append.mp h with h | h
  · obtain ⟨found, hfound, rfl⟩ := List.mem_map.mp h
    exact rooted_of_group (group_of_mem_findAll recordsOnly_routeCall hfound)
  · obtain ⟨found, -, hroute⟩ := List.mem_filterMap.mp h
    unfold objectRoute? at hroute
    split at hroute
    · rename_i hurl
      obtain rfl := Option.some.inj hroute
      exact rooted_of_group (group_of_search recordsOnly_urlEntry hurl)
    · cases hroute

theorem filePath_of_mem_declaredRoutes {content : List Char} {file : String} {d : CallRoute}
    (h : d ∈ declaredRoutes content file) : d.filePath = file := by
  rcases List.mem_append.mp h with h | h
  · obtain ⟨found, -, rfl⟩ := List.mem_map.mp h
    rfl
  · obtain ⟨found, -, hroute⟩ := List.mem_filterMap.mp h
    unfold objectRoute? at hroute
    split at hroute
    · obtain rfl := Option.some.inj hroute
      rfl
    · cases hroute

section Links

variable {files : List RouterFile} {tree : FileTree}

theorem rooted_of_mem_mountLinks {l : MountLink} (h : l ∈ mountLinks files tree) :
    Rooted l.path := by
  obtain ⟨f, -, h⟩ := List.mem_flatMap.mp h
  obtain ⟨m, hm, h⟩ := List.mem_filterMap.mp h
  obtain ⟨target, -, rfl⟩ := Option.map_eq_some_iff.mp h
  exact rooted_of_mem_mounts hm

theorem rooted_of_servedBelow {above file : String}
    (h : ServedBelow (mountLinks files tree) above file) : Rooted above := by
  induction h with
  | unmounted => exact rooted_empty
  | mounted hl _ ih => exact ih.append (rooted_of_mem_mountLinks hl)

theorem rooted_lastMount (file : String) : Rooted (lastMount (mountLinks files tree) file) := by
  unfold lastMount
  cases hlast : ((mountLinks files tree).filter fun l => l.child = file).getLast? with
  | none => exact rooted_empty
  | some l =>
    exact rooted_of_mem_mountLinks (List.mem_filter.mp (List.mem_of_getLast? hlast)).1

theorem eq_empty_of_unmounted {links : List MountLink} {above file : String}
    (hserved : ServedBelow links above file) (h : ∀ l ∈ links, l.child ≠ file) : above = "" := by
  cases hserved with
  | unmounted => rfl
  | mounted hl _ => exact absurd rfl (h _ hl)

theorem lastMount_of_unmounted {links : List MountLink} {file : String}
    (h : ∀ l ∈ links, l.child ≠ file) : lastMount links file = "" := by
  have hnil : (links.filter fun l => l.child = file) = [] :=
    List.filter_eq_nil_iff.mpr fun l hl => by simpa using h l hl
  rw [lastMount, hnil]
  rfl

theorem lastMount_of_nodup {links : List MountLink} (h : (links.map MountLink.child).Nodup)
    {l : MountLink} (hl : l ∈ links) : lastMount links l.child = l.path := by
  have hmem : l ∈ links.filter fun x => x.child = l.child :=
    List.mem_filter.mpr ⟨hl, by simp⟩
  obtain ⟨last, hlast⟩ := Option.ne_none_iff_exists'.mp
    (mt List.getLast?_eq_none_iff.mp (List.ne_nil_of_mem hmem))
  obtain ⟨hlast', hchild⟩ := List.mem_filter.mp (List.mem_of_getLast? hlast)
  obtain rfl := List.inj_on_of_nodup_map h hlast' hl (of_decide_eq_true hchild)
  rw [lastMount, hlast]
  rfl

/-! ## What the index has of a file -/

theorem mountPaths_eq (files : List RouterFile) (tree : FileTree) :
    mountPaths files tree =
      Catalog.ofList ((mountLinks files tree).map fun l => (l.child, l.path)) := by
  rw [mountPaths, mountLinks, List.map_flatMap]
  simp only [List.map_filterMap, Option.map_map]
  rfl

/-- A route is listed under the last mount of its file. -/
theorem url_mounted (route : CallRoute) :
    (mounted (mountPaths files tree) route).url =
      normalizePath (lastMount (mountLinks files tree) route.filePath ++ route.url) := by
  have hfind : (mountPaths files tree).find? route.filePath =
      ((mountLinks files tree).filter fun l => l.child = route.filePath).getLast?.map
        MountLink.path := by
    rw [mountPaths_eq, Catalog.find?_ofList, List.filter_map, List.getLast?_map, Option.map_map]
    rfl
  unfold mounted lastMount
  rw [← hfind]
  cases (mountPaths files tree).find? route.filePath with
  | none => rw [Option.getD_none, String.empty_append]
  | some path => rfl

theorem method_mounted (paths : Catalog String) (route : CallRoute) :
    (mounted paths route).method = route.method ∧
      (mounted paths route).filePath = route.filePath := by
  unfold mounted
  split <;> exact ⟨rfl, rfl⟩

end Links

/-- A route is listed under a URL if it is registered for it. -/
theorem CallIndex.Lists.mem_find?_iff {index : CallIndex} {routes : List CallRoute}
    (h : index.Lists routes) {url : String} {r : CallRoute} :
    r ∈ (index.routes.find? url).getD [] ↔ r ∈ routes ∧ r.url = url := by
  rw [h.find?_eq]
  split
  · simp
  · rename_i hnone
    simp only [Option.getD_none, List.not_mem_nil, false_iff, not_and]
    intro hr hurl
    exact hnone (List.mem_map.mpr ⟨r, hr, hurl⟩)

section Project

variable {p : Project} {tree : FileTree} {index : CallIndex}

/-- A file of a project is known by its path. -/
theorem routerFile_ext {f g : RouterFile} (hf : f ∈ routerFiles p tree)
    (hg : g ∈ routerFiles p tree) (h : f.path = g.path) : f = g := by
  have hread : ∀ x ∈ routerFiles p tree, p.readText? x.path = some x.content := by
    intro x hx
    obtain ⟨⟨path, text⟩, hfile, rfl⟩ := List.mem_map.mp hx
    obtain ⟨path', -, hpath⟩ := List.mem_filterMap.mp hfile
    obtain ⟨text', htext, heq⟩ := Option.map_eq_some_iff.mp hpath
    obtain ⟨rfl, rfl⟩ := Prod.mk.inj heq
    exact htext
  have hcontent : some f.content = some g.content := by
    rw [← hread f hf, ← hread g hg, h]
  cases f
  cases g
  obtain rfl := Option.some.inj hcontent
  obtain rfl := h
  rfl

/-- What the index has of a file under a URL. -/
theorem holds_iff (hindex : CallIndex.ofProject p tree = .ok index)
    (hframework : index.framework ≠ .neither) {f : RouterFile} (hf : f ∈ routerFiles p tree)
    {d : CallRoute} (hd : d ∈ declaredRoutes f.content f.path) {url : String} :
    index.Holds d url ↔
      ∃ e ∈ declaredRoutes f.content f.path, e.method = d.method ∧
        normalizePath (lastMount (mountLinks (routerFiles p tree) tree) f.path ++ e.url) = url := by
  have hlists : index.Lists (registered (routerFiles p tree) tree) := by
    have hproject := lists_ofProject hindex
    unfold projectRoutes at hproject
    split at hproject
    · exact absurd ‹_› hframework
    · exact hproject
  have hfile := filePath_of_mem_declaredRoutes hd
  unfold CallIndex.Holds
  constructor
  · rintro ⟨r, hr, hmethod, hpath⟩
    obtain ⟨hregistered, rfl⟩ := hlists.mem_find?_iff.mp hr
    obtain ⟨e, he, rfl⟩ := List.mem_map.mp hregistered
    obtain ⟨g, hg, he⟩ := List.mem_flatMap.mp he
    -- The route comes from the same file, since it has its path.
    rw [(method_mounted _ e).2, filePath_of_mem_declaredRoutes he, hfile] at hpath
    obtain rfl := routerFile_ext hg hf hpath
    rw [(method_mounted _ e).1] at hmethod
    exact ⟨e, he, hmethod, by rw [url_mounted, filePath_of_mem_declaredRoutes he]⟩
  · rintro ⟨e, he, hmethod, rfl⟩
    refine ⟨mounted (mountPaths (routerFiles p tree) tree) e, hlists.mem_find?_iff.mpr ⟨?_, ?_⟩,
      ?_, ?_⟩
    · exact List.mem_map_of_mem (List.mem_flatMap.mpr ⟨f, hf, he⟩)
    · rw [url_mounted, filePath_of_mem_declaredRoutes he]
    · rw [(method_mounted _ e).1, hmethod]
    · rw [(method_mounted _ e).2, filePath_of_mem_declaredRoutes he, hfile]

/-! ## Chains and the last mount -/

/-- If whatever is added to one number is found again added to another, the numbers are equal: the
greatest and the least of what is added show it. -/
theorem eq_of_forall_exists_add_eq {α : Type} [DecidableEq α] {l : List α} (hne : l ≠ [])
    (size : α → Nat) {a b : Nat} (h : ∀ x ∈ l, ∃ y ∈ l, b + size y = a + size x) : a = b := by
  have hnonempty : l.toFinset.Nonempty := List.toFinset_nonempty_iff l |>.mpr hne
  obtain ⟨greatest, hgreatest, hmax⟩ := Finset.exists_max_image l.toFinset size hnonempty
  obtain ⟨least, hleast, hmin⟩ := Finset.exists_min_image l.toFinset size hnonempty
  obtain ⟨y, hy, hsum⟩ := h greatest (List.mem_toFinset.mp hgreatest)
  obtain ⟨z, hz, hsum'⟩ := h least (List.mem_toFinset.mp hleast)
  have := hmax y (List.mem_toFinset.mpr hy)
  have := hmin z (List.mem_toFinset.mpr hz)
  omega

/-- **Under which chains the routes of a file are listed**: under those whose paths, one after the
other, have the segments of the last mount of the file. -/
theorem holds_chain_iff (hindex : CallIndex.ofProject p tree = .ok index)
    (hframework : index.framework ≠ .neither) {f : RouterFile} (hf : f ∈ routerFiles p tree)
    (hroutes : declaredRoutes f.content f.path ≠ []) {above : String}
    (habove : ServedBelow (mountLinks (routerFiles p tree) tree) above f.path) :
    (∀ d ∈ declaredRoutes f.content f.path, index.Holds d (normalizePath (above ++ d.url))) ↔
      properSegments above =
        properSegments (lastMount (mountLinks (routerFiles p tree) tree) f.path) := by
  have hchain := rooted_of_servedBelow habove
  have hlast : Rooted (lastMount (mountLinks (routerFiles p tree) tree) f.path) :=
    rooted_lastMount f.path
  constructor
  · intro h
    have hsegments : ∀ d ∈ declaredRoutes f.content f.path,
        ∃ e ∈ declaredRoutes f.content f.path,
          properSegments (lastMount (mountLinks (routerFiles p tree) tree) f.path) ++
              properSegments e.url = properSegments above ++ properSegments d.url := by
      intro d hd
      obtain ⟨e, he, -, hurl⟩ := (holds_iff hindex hframework hf hd).mp (h d hd)
      exact ⟨e, he, (normalizePath_append_eq_iff hlast (rooted_of_mem_declaredRoutes he) hchain
        (rooted_of_mem_declaredRoutes hd)).mp hurl⟩
    -- Both have as many segments, so that they are the same where they stand in front of a route.
    have hlength : (properSegments above).length =
        (properSegments (lastMount (mountLinks (routerFiles p tree) tree) f.path)).length := by
      refine eq_of_forall_exists_add_eq hroutes (fun d => (properSegments d.url).length) ?_
      intro d hd
      obtain ⟨e, he, heq⟩ := hsegments d hd
      exact ⟨e, he, by simpa using congrArg List.length heq⟩
    obtain ⟨d, rest, hd⟩ := List.exists_cons_of_ne_nil hroutes
    obtain ⟨e, -, heq⟩ := hsegments d (hd ▸ List.mem_cons_self)
    exact (List.append_inj_left heq hlength.symm).symm
  · intro h d hd
    refine (holds_iff hindex hframework hf hd).mpr ⟨d, hd, rfl, ?_⟩
    rw [normalizePath_append_eq_iff hlast (rooted_of_mem_declaredRoutes hd) hchain
      (rooted_of_mem_declaredRoutes hd), h]

/-- **When no mount is lost**: every chain of mounts that leads to a file with routes has, its paths
one after the other, the segments of the last mount of the file. -/
theorem noMountLost_iff (hindex : CallIndex.ofProject p tree = .ok index)
    (hframework : index.framework ≠ .neither) :
    NoMountLost p tree index ↔
      ∀ f ∈ routerFiles p tree, declaredRoutes f.content f.path ≠ [] →
        ∀ above, ServedBelow (mountLinks (routerFiles p tree) tree) above f.path →
          properSegments above =
            properSegments (lastMount (mountLinks (routerFiles p tree) tree) f.path) := by
  constructor
  · intro h f hf hroutes above habove
    exact (holds_chain_iff hindex hframework hf hroutes habove).mp fun d hd =>
      h f hf d hd above habove
  · intro h f hf d hd above habove
    have hroutes : declaredRoutes f.content f.path ≠ [] := List.ne_nil_of_mem hd
    exact (holds_chain_iff hindex hframework hf hroutes habove).mpr
      (h f hf hroutes above habove) d hd

/-- No mount is lost where every file is mounted once at most, and by a file that is not mounted. -/
theorem noMountLost_of_flat (hindex : CallIndex.ofProject p tree = .ok index)
    (hframework : index.framework ≠ .neither)
    (honce : ((mountLinks (routerFiles p tree) tree).map MountLink.child).Nodup)
    (hflat : ∀ l ∈ mountLinks (routerFiles p tree) tree,
      ∀ l' ∈ mountLinks (routerFiles p tree) tree, l'.child ≠ l.parent) :
    NoMountLost p tree index := by
  intro f hf d hd above habove
  refine (holds_chain_iff hindex hframework hf (List.ne_nil_of_mem hd) habove).mpr ?_ d hd
  generalize f.path = file at habove
  refine congrArg properSegments ?_
  cases habove with
  | unmounted h => rw [lastMount_of_unmounted h]
  | @mounted above l hl parent =>
    -- The file that mounts it is not mounted, so that the chain is this one mount.
    have hfirst : above = "" := eq_empty_of_unmounted parent fun l' hl' => hflat l hl l' hl'
    rw [hfirst, String.empty_append, lastMount_of_nodup honce hl]

end Project

/-! ## A router with two versions -/

/-- A project that mounts a router on two paths, and another router inside it. -/
def versioned : Project where
  files := ⟨[(["package.json"],
      .file (.text "\x7b\"dependencies\": \x7b\"express\": \"^4\"\x7d\x7d".toList)),
    (["app.js"], .file (.text
      "const api = require('./api');\napp.use('/v1', api);\napp.use('/v2', api);\n".toList)),
    (["api.js"], .file (.text
      ("const admin = require('./admin');\napi.get('/users', list);\n" ++
        "api.use('/admin', admin);\n").toList)),
    (["admin.js"], .file (.text "admin.get('/stats', show);\n".toList))]⟩
  directory := []

/-- The files of the project. -/
def versionedTree : FileTree := ⟨["admin.js", "api.js", "app.js", "package.json"]⟩

/-- The mounts of the project. -/
def versionedLinks : List MountLink :=
  mountLinks (routerFiles versioned versionedTree) versionedTree

theorem versionedLinks_eq : versionedLinks =
    [⟨"api.js", "/admin", "admin.js"⟩, ⟨"app.js", "/v1", "api.js"⟩,
      ⟨"app.js", "/v2", "api.js"⟩] := by
  decide +kernel

/-- Files that mount each other upwards only, by some count, do so without cycles. -/
theorem acyclic_of_lt {links : List MountLink} (height : String → Nat)
    (h : ∀ l ∈ links, height l.child < height l.parent) : Acyclic links := by
  have hdown : ∀ {a b}, Relation.TransGen (fun a b => ∃ l ∈ links, l.parent = a ∧ l.child = b) a b →
      height b < height a := by
    intro a b hab
    induction hab with
    | single hstep =>
      obtain ⟨l, hl, rfl, rfl⟩ := hstep
      exact h l hl
    | tail _ hstep ih =>
      obtain ⟨l, hl, rfl, rfl⟩ := hstep
      exact (h l hl).trans ih
  exact fun file hcycle => Nat.lt_irrefl _ (hdown hcycle)

theorem acyclic_versioned : Acyclic versionedLinks := by
  rw [versionedLinks_eq]
  exact acyclic_of_lt (fun file => if file = "app.js" then 2 else if file = "api.js" then 1 else 0)
    (by decide)

/-- The router is served under its first path, and the router inside it under both. -/
theorem served_versioned : ServedBelow versionedLinks "/v1" "api.js" ∧
    ServedBelow versionedLinks "/v2/admin" "admin.js" := by
  rw [versionedLinks_eq]
  have hroot : ServedBelow [⟨"api.js", "/admin", "admin.js"⟩, ⟨"app.js", "/v1", "api.js"⟩,
      ⟨"app.js", "/v2", "api.js"⟩] "" "app.js" := .unmounted (by decide)
  exact ⟨.mounted (l := ⟨"app.js", "/v1", "api.js"⟩) (by decide) hroot,
    .mounted (l := ⟨"api.js", "/admin", "admin.js"⟩) (by decide)
      (.mounted (l := ⟨"app.js", "/v2", "api.js"⟩) (by decide) hroot)⟩

/-- The index has neither the first version nor anything of the router inside. -/
theorem exists_versioned_index : ∃ index,
    CallIndex.ofProject versioned versionedTree = .ok index ∧ index.framework = .express ∧
      ¬ index.Holds ⟨"GET", "/users", "api.js", none⟩ "/v1/users" ∧
      ¬ index.Holds ⟨"GET", "/stats", "admin.js", none⟩ "/v2/admin/stats" := by
  have hread : ((CallIndex.ofProject versioned versionedTree).toOption.map fun index =>
      (index.framework,
        decide (index.Holds ⟨"GET", "/users", "api.js", none⟩ "/v1/users"),
        decide (index.Holds ⟨"GET", "/stats", "admin.js", none⟩ "/v2/admin/stats"))) =
      some (.express, false, false) := by
    decide +kernel
  obtain ⟨index, hindex, hread⟩ := Option.map_eq_some_iff.mp hread
  obtain ⟨hframework, hfirst, hinner⟩ := by simpa only [Prod.mk.injEq] using hread
  exact ⟨index, eq_ok_of_toOption_eq_some hindex, hframework, of_decide_eq_false hfirst,
    of_decide_eq_false hinner⟩

theorem noMountLost_iff_versioned : ∃ index,
    CallIndex.ofProject versioned versionedTree = .ok index ∧ index.framework ≠ .neither ∧
      (NoMountLost versioned versionedTree index ↔
        ∀ f ∈ routerFiles versioned versionedTree, declaredRoutes f.content f.path ≠ [] →
          ∀ above, ServedBelow versionedLinks above f.path →
            properSegments above = properSegments (lastMount versionedLinks f.path)) := by
  obtain ⟨index, hindex, hframework, -, -⟩ := exists_versioned_index
  have hne : index.framework ≠ .neither := by rw [hframework]; exact nofun
  exact ⟨index, hindex, hne, noMountLost_iff hindex hne⟩

/-- **A mount may be lost**: of a router that is mounted on two paths the routes are listed under
the second alone. -/
theorem mount_lost : ¬ ∀ (p : Project) (tree : FileTree) (index : CallIndex),
    CallIndex.ofProject p tree = .ok index → index.framework ≠ .neither →
      Acyclic (mountLinks (routerFiles p tree) tree) → NoMountLost p tree index := by
  intro hall
  obtain ⟨index, hindex, hframework, hlost, -⟩ := exists_versioned_index
  have hfile : ∃ f ∈ routerFiles versioned versionedTree, f.path = "api.js" ∧
      (⟨"GET", "/users", "api.js", none⟩ : CallRoute) ∈ declaredRoutes f.content f.path := by
    decide +kernel
  obtain ⟨f, hf, hpath, hroute⟩ := hfile
  have hserved : ServedBelow versionedLinks "/v1" f.path := hpath ▸ served_versioned.1
  have hne : index.framework ≠ .neither := by rw [hframework]; exact nofun
  have hholds := hall versioned versionedTree index hindex hne acyclic_versioned f hf _ hroute "/v1"
    hserved
  have hurl : normalizePath ("/v1" ++ "/users") = "/v1/users" := by decide
  exact hlost (hurl ▸ hholds)

end PlanAudit.Routes
