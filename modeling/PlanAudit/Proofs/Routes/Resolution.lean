import Mathlib.Data.List.Induction
import Mathlib.Data.List.Infix
import PlanAudit.Proofs.Paths.Classes
import PlanAudit.Proofs.Text.Segments
import PlanAudit.Routes.CallRouter

/-!
# Relative specifiers

A relative specifier is a walk from the directory of the file that holds it: each name goes down,
each double dot back up.  The file it leads to is the first file of the tree among those that are
tried for the place where the walk ends.  The root of the project is a wall: a double dot there
stays where it is, so that a walk that climbs above the root still ends inside the project.

## Main definitions

* `walk`: the names that a specifier in a file goes through
* `Leads`: where a walk ends, with the root as a wall or without
* `Climbs`: a walk has more double dots than names in front of them
* `candidates`: the paths that are tried for a place
* `FirstIn`: an answer is the first of some paths that is in the tree
* `Resolves`: an answer is right for a specifier

## Main results

* `climbs_iff`: the walks that climb are those that lead nowhere without the wall
* `Leads.unique`, `leads_collapsed`: with the wall every walk ends at one place
* `resolves_inside`: the file a specifier leads to, for every tree
* `climbing_resolved`: a specifier that climbs above the root may lead to a file
-/

namespace PlanAudit.Routes

open Text

/-! ## Walks -/

/-- The names that a specifier in a file goes through from the root of the project: those of the
directory of the file, then its own. -/
def walk (file specifier : String) : List String :=
  (Path.writtenSegments file).dropLast ++ Path.writtenSegments specifier

/-- Where a walk from the root ends: a name goes down, a double dot back up.  At the root itself a
double dot leads nowhere, or with the wall stays there. -/
inductive Leads (wall : Bool) : List String → Path → Prop
  | start : Leads wall [] []
  | down {names : List String} {place : Path} {name : String} (hname : name ≠ "..")
      (before : Leads wall names place) : Leads wall (names ++ [name]) (place ++ [name])
  | up {names : List String} {place : Path} {name : String}
      (before : Leads wall names (place ++ [name])) : Leads wall (names ++ [".."]) place
  | stay {names : List String} (hwall : wall = true) (before : Leads wall names []) :
      Leads wall (names ++ [".."]) []

/-- The double dots of a walk up to some point outnumber the names. -/
def Climbs (names : List String) : Prop :=
  ∃ front, front <+: names ∧ front.countP (· != "..") < front.count ".."

instance (names : List String) : Decidable (Climbs names) :=
  decidable_of_iff (∃ front ∈ names.inits, front.countP (· != "..") < front.count "..")
    (by simp only [List.mem_inits, Climbs])

section Walks

variable {wall : Bool} {names : List String} {place : Path} {name : String}

theorem leads_nil_iff : Leads wall [] place ↔ place = [] := by
  constructor
  · generalize hwhole : ([] : List String) = whole
    intro h
    cases h with
    | start => rfl
    | down => exact absurd hwhole (by simp)
    | up => exact absurd hwhole (by simp)
    | stay => exact absurd hwhole (by simp)
  · rintro rfl
    exact .start

/-- Where a walk ends follows from its last step. -/
theorem leads_concat_iff :
    Leads wall (names ++ [name]) place ↔
      (name ≠ ".." ∧ ∃ above, Leads wall names above ∧ place = above ++ [name]) ∨
        (name = ".." ∧ ((∃ last, Leads wall names (place ++ [last])) ∨
          wall = true ∧ place = [] ∧ Leads wall names [])) := by
  constructor
  · -- The walk as a whole is kept as an equation, which tells its last step in each case.
    generalize hwhole : names ++ [name] = whole
    intro h
    cases h with
    | start => exact absurd hwhole (by simp)
    | @down before above last hname hbefore =>
      obtain ⟨rfl, hlast⟩ := List.append_inj' hwhole rfl
      obtain rfl := List.singleton_inj.mp hlast
      exact Or.inl ⟨hname, above, hbefore, rfl⟩
    | @up before above last hbefore =>
      obtain ⟨rfl, hlast⟩ := List.append_inj' hwhole rfl
      exact Or.inr ⟨List.singleton_inj.mp hlast, Or.inl ⟨last, hbefore⟩⟩
    | @stay before hwall hbefore =>
      obtain ⟨rfl, hlast⟩ := List.append_inj' hwhole rfl
      exact Or.inr ⟨List.singleton_inj.mp hlast, Or.inr ⟨hwall, rfl, hbefore⟩⟩
  · rintro (⟨hname, above, hbefore, rfl⟩ | ⟨rfl, ⟨last, hbefore⟩ | ⟨hwall, rfl, hbefore⟩⟩)
    · exact .down hname hbefore
    · exact .up hbefore
    · exact .stay hwall hbefore

/-- A walk ends at one place at most. -/
theorem Leads.unique {other : Path} (h : Leads wall names place) (h' : Leads wall names other) :
    place = other := by
  induction names using List.reverseRecOn generalizing place other with
  | nil =>
    rw [leads_nil_iff.mp h, leads_nil_iff.mp h']
  | append_singleton names name ih =>
    rcases leads_concat_iff.mp h with ⟨hname, above, hbefore, rfl⟩ | ⟨rfl, hup⟩
    · rcases leads_concat_iff.mp h' with ⟨-, above', hbefore', rfl⟩ | ⟨hdots, -⟩
      · rw [ih hbefore hbefore']
      · exact absurd hdots hname
    · rcases leads_concat_iff.mp h' with ⟨hname, -⟩ | ⟨-, hup'⟩
      · exact absurd rfl hname
      · -- Both go back up from the same place, which is the root or is not.
        rcases hup with ⟨last, hbefore⟩ | ⟨-, rfl, hbefore⟩ <;>
          rcases hup' with ⟨last', hbefore'⟩ | ⟨-, rfl, hbefore'⟩
        · exact (List.append_inj' (ih hbefore hbefore') rfl).1
        · exact absurd (ih hbefore hbefore') (by simp)
        · exact absurd (ih hbefore hbefore') (by simp)
        · rfl

theorem Leads.with_wall (h : Leads false names place) : Leads wall names place := by
  induction h with
  | start => exact .start
  | down hname _ ih => exact .down hname ih
  | up _ ih => exact .up ih
  | stay hwall => cases hwall

/-- With the root as a wall every walk ends at the place that is left of it when each double dot is
taken away with the name in front of it. -/
theorem leads_collapsed (names : List String) : Leads true names (Path.collapsed names) := by
  induction names using List.reverseRecOn with
  | nil => exact .start
  | append_singleton names name ih =>
    rw [Path.collapsed, List.foldl_append, List.foldl_cons, List.foldl_nil, ← Path.collapsed]
    by_cases hname : name = ".."
    · rw [hname, if_pos (by rfl)]
      rcases List.eq_nil_or_concat' (Path.collapsed names) with hroot | ⟨above, last, habove⟩
      · rw [hroot] at ih ⊢
        exact .stay rfl ih
      · rw [habove] at ih ⊢
        rw [List.dropLast_concat]
        exact .up ih
    · rw [if_neg (by simpa using hname)]
      exact .down hname ih

/-! ## Walks that climb -/

/-- A walk inside the project goes down as many names as are left when each double dot has taken one
away. -/
theorem Leads.length_add_count (h : Leads false names place) :
    place.length + names.count ".." = names.countP (· != "..") := by
  induction h with
  | start => rfl
  | down hname _ ih =>
    rw [List.length_append, List.count_append, List.countP_append, ← ih]
    simp [hname]
    omega
  | up _ ih =>
    rw [List.length_append] at ih
    rw [List.count_append, List.countP_append]
    simp at ih ⊢
    omega
  | stay hwall => cases hwall

theorem Leads.not_climbs (h : Leads false names place) : ¬ Climbs names := by
  rintro ⟨front, hfront, hlt⟩
  -- Each part of a walk inside the project leads somewhere.
  have hreach : ∃ above, Leads false front above := by
    clear hlt
    induction h with
    | start => exact ⟨[], (List.prefix_nil.mp hfront).symm ▸ .start⟩
    | @down names place name hname before ih =>
      rcases List.prefix_concat_iff.mp hfront with rfl | hfront
      · exact ⟨_, .down hname before⟩
      · exact ih hfront
    | @up names place name before ih =>
      rcases List.prefix_concat_iff.mp hfront with rfl | hfront
      · exact ⟨_, .up before⟩
      · exact ih hfront
    | stay hwall => cases hwall
  obtain ⟨above, habove⟩ := hreach
  have hcount := habove.length_add_count
  omega

theorem exists_leads_of_not_climbs (h : ¬ Climbs names) : ∃ place, Leads false names place := by
  -- Induction on the walk: each part of it climbs no more than the whole.
  induction names using List.reverseRecOn with
  | nil => exact ⟨[], .start⟩
  | append_singleton names name ih =>
    obtain ⟨place, hplace⟩ := ih fun ⟨front, hfront, hlt⟩ =>
      h ⟨front, hfront.trans (List.prefix_append names [name]), hlt⟩
    by_cases hname : name = ".."
    · subst hname
      rcases List.eq_nil_or_concat' place with rfl | ⟨above, last, rfl⟩
      · -- From the root the double dot would be one too many.
        refine absurd ⟨names ++ [".."], List.prefix_rfl, ?_⟩ h
        have hcount := hplace.length_add_count
        rw [List.count_append, List.countP_append]
        simp at hcount ⊢
        omega
      · exact ⟨above, .up hplace⟩
    · exact ⟨place ++ [name], .down hname hplace⟩

/-- **Which walks climb**: those that lead nowhere if the root is no wall. -/
theorem climbs_iff : Climbs names ↔ ∀ place, ¬ Leads false names place := by
  constructor
  · exact fun h place hplace => hplace.not_climbs h
  · intro h
    by_contra hclimbs
    obtain ⟨place, hplace⟩ := exists_leads_of_not_climbs hclimbs
    exact h place hplace

/-- A walk that does not climb ends at the same place without the wall. -/
theorem Leads.without_wall (h : Leads true names place) (hclimbs : ¬ Climbs names) :
    Leads false names place := by
  obtain ⟨inside, hinside⟩ := exists_leads_of_not_climbs hclimbs
  rwa [h.unique hinside.with_wall]

end Walks

/-! ## What is tried -/

/-- A path without a final `.js`, if it has one. -/
def IsStem (stem path : String) : Prop :=
  path = stem ++ ".js" ∨ stem = path ∧ ∀ s, path ≠ s ++ ".js"

/-- The paths that are tried for a path with a given stem: itself, then the stem with each ending,
then itself with each ending. -/
def candidates (path stem : String) : List String :=
  path :: probeEndings.map (stem ++ ·) ++ probeEndings.map (path ++ ·)

/-- The answer is the first of the paths that is in the tree, and none only if none of them is. -/
def FirstIn (tree : FileTree) (paths : List String) : Option String → Prop
  | some p =>
    ∃ front back, paths = front ++ p :: back ∧ p ∈ tree.paths ∧ ∀ q ∈ front, q ∉ tree.paths
  | none => ∀ q ∈ paths, q ∉ tree.paths

/-- The answer is right for a specifier in a file: it is the first path in the tree of those that
are tried for the place where the specifier ends. -/
def Resolves (wall : Bool) (tree : FileTree) (file specifier : String)
    (answer : Option String) : Prop :=
  ∃ place stem, Leads wall (walk file specifier) place ∧ IsStem stem ("/".intercalate place) ∧
    FirstIn tree (candidates ("/".intercalate place) stem) answer

theorem isStem_withoutEnd (path : String) : IsStem (withoutEnd ".js" path) path := by
  unfold withoutEnd
  split
  · rename_i h
    obtain ⟨chars, hchars⟩ := Paths.stringEnds_iff.mp h
    refine Or.inl (String.toList_inj.mp ?_)
    rw [← hchars, List.length_append, Nat.add_sub_cancel, List.take_left]
    simp
  · rename_i h
    refine Or.inr ⟨rfl, fun s hs => h (Paths.stringEnds_iff.mpr ⟨s.toList, ?_⟩)⟩
    rw [hs, String.toList_append]

theorem IsStem.unique {stem stem' path : String} (h : IsStem stem path) (h' : IsStem stem' path) :
    stem = stem' := by
  rcases h with rfl | ⟨rfl, hends⟩
  · rcases h' with h' | ⟨-, hends⟩
    · exact (String.append_left_inj _).mp h'
    · exact absurd rfl (hends stem)
  · rcases h' with rfl | ⟨rfl, -⟩
    · exact absurd rfl (hends stem')
    · rfl

/-! ## The file of a specifier -/

/-- A path that does not start at the root of the file system has its names as parts. -/
theorem pathParts_eq {path : String} (h : stringBegins "/" path = false) :
    pathParts path = Path.writtenSegments path := by
  have hfirst : ∀ rest, path.toList ≠ '/' :: rest := by
    intro rest hrest
    rw [stringBegins_iff.mpr (hrest ▸ List.prefix_append ['/'] rest)] at h
    cases h
  unfold pathParts
  split
  · exact absurd ‹_› (hfirst _)
  · exact absurd ‹_› (hfirst _)
  · exact absurd ‹_› (hfirst _)
  · rfl

/-- The directory of such a path is the path without its last name. -/
theorem directoryParts_eq {path : String} (h : stringBegins "/" path = false) :
    directoryParts path = (Path.writtenSegments path).dropLast := by
  have hname : ∀ {name}, Path.writtenSegments path = [name] → '/' ∉ name.toList := by
    intro name hpath
    have hmem : name ∈ Path.writtenSegments path := hpath ▸ List.mem_singleton_self name
    exact (isSegment_of_mem_properSegments (List.mem_filter.mp hmem).1).not_mem
  unfold directoryParts
  rw [pathParts_eq h]
  -- The sole part of a path is no root, which would have to hold a slash.
  split
  · rename_i hroot
    exact absurd (by decide) (hname hroot)
  · rename_i hroot
    exact absurd (by decide) (hname hroot)
  · rfl

theorem firstIn_iff {tree : FileTree} {paths : List String} {answer : Option String} :
    FirstIn tree paths answer ↔ paths.find? tree.contains = answer := by
  have hcontains : ∀ p, tree.contains p = true ↔ p ∈ tree.paths := fun p => List.contains_iff_mem
  cases answer with
  | none =>
    rw [List.find?_eq_none]
    exact forall₂_congr fun q _ => not_congr (hcontains q).symm
  | some p =>
    rw [List.find?_eq_some_iff_append, hcontains]
    constructor
    · rintro ⟨front, back, hpaths, hp, hfront⟩
      exact ⟨hp, front, back, hpaths, fun q hq => by simpa [← hcontains] using hfront q hq⟩
    · rintro ⟨hp, front, back, hpaths, hfront⟩
      exact ⟨front, back, hpaths, hp, fun q hq => by simpa [← hcontains] using hfront q hq⟩

/-- A specifier has one right answer at most. -/
theorem Resolves.unique {wall : Bool} {tree : FileTree} {file specifier : String}
    {answer answer' : Option String} (h : Resolves wall tree file specifier answer)
    (h' : Resolves wall tree file specifier answer') : answer = answer' := by
  obtain ⟨place, stem, hplace, hstem, hfirst⟩ := h
  obtain ⟨place', stem', hplace', hstem', hfirst'⟩ := h'
  obtain rfl := hplace.unique hplace'
  obtain rfl := hstem.unique hstem'
  rw [← firstIn_iff.mp hfirst, firstIn_iff.mp hfirst']

theorem probes_eq (path : String) : probes path = candidates path (withoutEnd ".js" path) := by
  simp [probes, candidates]

section Resolution

variable (tree : FileTree) {file specifier : String}

/-- **The file a specifier leads to**: for every tree, a relative specifier in a file of the project
is answered with the first path in the tree of those that are tried for the place where it ends,
which is inside the root; and with none only if the tree has none of them. -/
theorem resolves_inside (hfile : stringBegins "/" file = false)
    (hspecifier : stringBegins "." specifier = true) :
    Resolves true tree file specifier (resolveRelative? specifier file tree) ∧
      (¬ Climbs (walk file specifier) →
        Resolves false tree file specifier (resolveRelative? specifier file tree)) := by
  have hrelative : stringBegins "/" specifier = false := by
    rw [Bool.eq_false_iff, Ne, stringBegins_iff]
    obtain ⟨rest, hrest⟩ := stringBegins_iff.mp hspecifier
    rw [← hrest]
    exact fun hslash => absurd (List.cons_prefix_cons.mp hslash).1 (by decide)
  have hplace := leads_collapsed (walk file specifier)
  -- The paths that are tried are those for the place where the walk ends.
  have hfirst : FirstIn tree (candidates ("/".intercalate (Path.collapsed (walk file specifier)))
      (withoutEnd ".js" ("/".intercalate (Path.collapsed (walk file specifier)))))
      (resolveRelative? specifier file tree) := by
    unfold resolveRelative?
    rw [if_pos hspecifier, directoryParts_eq hfile, pathParts_eq hrelative, ← walk]
    show FirstIn tree _ ((probes _).find? tree.contains)
    rw [probes_eq]
    exact firstIn_iff.mpr rfl
  refine ⟨⟨_, _, hplace, isStem_withoutEnd _, hfirst⟩, fun hclimbs => ?_⟩
  exact ⟨_, _, hplace.without_wall hclimbs, isStem_withoutEnd _, hfirst⟩

/-- A router in the directory above that of the file. -/
theorem resolves_router_above :
    stringBegins "/" "api/app.js" = false ∧ stringBegins "." "../routes/x.js" = true ∧
      resolveRelative? "../routes/x.js" "api/app.js" ⟨["app.js", "routes/x.ts"]⟩ =
        some "routes/x.ts" ∧
      Resolves false ⟨["app.js", "routes/x.ts"]⟩ "api/app.js" "../routes/x.js"
        (some "routes/x.ts") := by
  have hfound : resolveRelative? "../routes/x.js" "api/app.js" ⟨["app.js", "routes/x.ts"]⟩ =
      some "routes/x.ts" := by
    decide
  have hclimbs : ¬ Climbs (walk "api/app.js" "../routes/x.js") := by decide
  refine ⟨by decide, by decide, hfound, hfound ▸ (resolves_inside _ ?_ ?_).2 hclimbs⟩ <;> decide

/-- **A specifier that climbs may lead to a file**: from a file at the root, a double dot leads to
the files beside it. -/
theorem climbing_resolved : ¬ ∀ (tree : FileTree) (file specifier : String),
    stringBegins "/" file = false → stringBegins "." specifier = true →
      (Climbs (walk file specifier) → resolveRelative? specifier file tree = none) ∧
      (¬ Climbs (walk file specifier) →
        Resolves false tree file specifier (resolveRelative? specifier file tree)) := by
  intro hall
  -- The double dot stays at the root, so that the file beside is found.
  have hclimbs : Climbs (walk "app.js" "../x") := by decide
  have hnone := (hall ⟨["x.js"]⟩ "app.js" "../x" (by decide) (by decide)).1 hclimbs
  have hfound : resolveRelative? "../x" "app.js" ⟨["x.js"]⟩ = some "x.js" := by decide
  rw [hfound] at hnone
  cases hnone

end Resolution

end PlanAudit.Routes
