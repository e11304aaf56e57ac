import PlanAudit.Proofs.Files.Listing
import PlanAudit.Proofs.Packages.Exports

/-!
# The search for the exports of a package ends

Three parts of the search call themselves.  The search for a declaration file goes on to companion
packages; their names grow in one directory, which holds finitely many.  The conditions of an export
lie inside each other.  The files whose exports a file passes on may pass on its own in turn, so
that only the depth ends the reading of them.

A recursion is given by what it does with the results of its calls, and by the calls themselves: if
these cannot go on for ever, there is one function that the recursion computes.

## Main definitions

* `IsRecursion`: a recursion ends, and a function is what it computes
* `typingsStep`, `CompanionCall`: the search for a declaration file
* `companionRank`: how many companions may still follow
* `conditionStep`, `ConditionCall`: the search in the conditions of an export
* `exportStep`, `VisitCall`: reading the files behind each other
* `apiBehind`: what is known of a package with a declaration file

## Main results

* `companionRank_lt`: a companion has fewer companions behind it
* `isRecursion_typings?`, `isRecursion_conditionTypings?`, `isRecursion_apiFrom`: the three
  recursions
* `resolution_ends`: they end on every file system, and what is found is a file
-/

namespace PlanAudit.Packages

open PlanAudit.Text

/-! ## Recursions -/

/-- The recursion that makes `body` of the results of its calls ends, and computes `f`; `calls b a`
tells that `b` is called for at `a`. -/
structure IsRecursion {α β : Type} (body : (α → β) → α → β) (calls : α → α → Prop)
    (f : α → β) : Prop where
  /-- No calls follow each other for ever. -/
  ends : WellFounded calls
  /-- No results but those of the calls are made use of. -/
  depends : ∀ g h a, (∀ b, calls b a → g b = h b) → body g a = body h a
  /-- The equation of the recursion has `f` as its only solution. -/
  sole : ∀ g, (∀ a, g a = body g a) ↔ g = f

theorem IsRecursion.of_solves {α β : Type} {body : (α → β) → α → β} {calls : α → α → Prop}
    {f : α → β} (ends : WellFounded calls)
    (depends : ∀ g h a, (∀ b, calls b a → g b = h b) → body g a = body h a)
    (solves : ∀ a, f a = body f a) : IsRecursion body calls f where
  ends := ends
  depends := depends
  sole := by
    intro g
    constructor
    · -- By induction along the calls: two solutions that agree on the calls agree.
      intro hg
      funext a
      induction a using ends.induction with
      | _ a ih => rw [hg a, solves a, depends g f a ih]
    · rintro rfl
      exact solves

/-- What each step preserves holds of all results. -/
theorem IsRecursion.forall_of_step {α β : Type} {body : (α → β) → α → β} {calls : α → α → Prop}
    {f : α → β} (h : IsRecursion body calls f) {P : α → β → Prop}
    (step : ∀ a, (∀ b, calls b a → P b (f b)) → P a (body f a)) (a : α) : P a (f a) := by
  induction a using h.ends.induction with
  | _ a ih =>
    rw [(h.sole f).mpr rfl a]
    exact step a ih

/-! ## Companion packages -/

section Companions

variable {files : FileSystem} {directory other : Path}

/-- The search for a declaration file, where `self` is the search behind a companion. -/
def typingsStep (files : FileSystem) (self : Path → Except Fault (Option Path))
    (directory : Path) : Except Fault (Option Path) :=
  (manifest? files directory).bind fun
    | none => .ok none
    | some manifest =>
      match ownTypings? files directory manifest, companion? files directory with
      | some found, _ => .ok (some found)
      | none, some other => self other
      | none, none => .ok none

/-- The search goes on to the companion of a package that holds no declaration file itself. -/
def CompanionCall (files : FileSystem) (other directory : Path) : Prop :=
  ∃ manifest, manifest? files directory = .ok (some manifest) ∧
    ownTypings? files directory manifest = none ∧ companion? files directory = some other

theorem typingsWithin?_succ (files : FileSystem) (companions : Nat) (directory : Path) :
    typingsWithin? files (companions + 1) directory =
      typingsStep files (typingsWithin? files companions) directory := rfl

theorem typingsStep_congr {g h : Path → Except Fault (Option Path)}
    (hcall : ∀ other, CompanionCall files other directory → g other = h other) :
    typingsStep files g directory = typingsStep files h directory := by
  unfold typingsStep
  cases hmanifest : manifest? files directory with
  | error fault => rfl
  | ok found =>
    cases found with
    | none => rfl
    | some manifest =>
      cases hown : ownTypings? files directory manifest with
      | some entry => simp only [Except.bind, hown]
      | none =>
        cases hother : companion? files directory with
        | none => simp only [Except.bind, hown]
        | some other =>
          simp only [Except.bind, hown]
          exact hcall other ⟨manifest, hmanifest, hown, hother⟩

theorem companion?_eq_some (h : companion? files directory = some other) :
    other = companion directory ∧ files.isDirectory other = true := by
  unfold companion? at h
  dsimp only at h
  split at h
  · rename_i hother
    obtain rfl := Option.some.inj h
    exact ⟨rfl, (Bool.and_eq_true_iff.mp hother).2⟩
  · cases h

/-- The companion of a companion stands beside it, under a longer name. -/
theorem companion_of_companion (h : directory.parent.fileName = "@types") :
    companion directory = directory.parent ++ ["types__" ++ directory.fileName] := by
  have hne : directory.parent ≠ [] := by
    intro hnil
    rw [hnil] at h
    exact absurd h (by decide)
  have habove : directory.parent.parent ++ ["@types"] = directory.parent := by
    rw [← h]
    exact FileSystem.parent_append_fileName hne
  have hscope : stringBegins "@" "@types" = true := by decide
  have hname : dropString 1 "@types" ++ "__" = "types__" := by decide
  unfold companion
  dsimp only
  rw [h, if_pos hscope, hname, ← List.singleton_append, ← List.append_assoc, habove]

/-- Where the root is no package, a companion lies in the directory of companions. -/
theorem parent_companion (h : directory ≠ []) :
    (companion directory).parent.fileName = "@types" := by
  have hparent (above : Path) (name : String) :
      Path.fileName (Path.parent (above ++ ["@types", name])) = "@types" := by
    rw [← List.singleton_append, ← List.append_assoc, FileSystem.parent_concat,
      FileSystem.fileName_concat]
  unfold companion
  dsimp only
  split
  · exact hparent _ _
  · rw [List.getLast?_eq_some_getLast h]
    exact hparent _ _

/-- How many companions may still follow: one for each longer name that something is stored under,
and those on the way to the directory of companions. -/
def companionRank (files : FileSystem) (directory : Path) : Nat :=
  if directory.parent.fileName = "@types" then
    files.entries.countP fun e => directory.fileName.length < e.1.fileName.length
  else if directory = [] then files.entries.length + 2
  else files.entries.length + 1

/-- What counts less than another, in one place for certain, counts less in sum. -/
theorem countP_lt_countP {α : Type} {p q : α → Bool} {as : List α} {a : α}
    (hle : ∀ x ∈ as, p x = true → q x = true) (ha : a ∈ as) (hp : p a = false)
    (hq : q a = true) : as.countP p < as.countP q := by
  obtain ⟨before, after, rfl⟩ := List.append_of_mem ha
  have hbefore : before.countP p ≤ before.countP q :=
    List.countP_mono_left fun x hx => hle x (List.mem_append_left _ hx)
  have hafter : after.countP p ≤ after.countP q :=
    List.countP_mono_left fun x hx =>
      hle x (List.mem_append_right _ (List.mem_cons_of_mem a hx))
  simp only [List.countP_append, List.countP_cons, hp, hq]
  simp
  omega

theorem countP_lt_of_isDirectory {directory : Path} {before after : String}
    (hdirectory : files.isDirectory (directory ++ [after]) = true) (hdots : after ≠ "..")
    (hlonger : before.length < after.length) :
    (files.entries.countP fun e => after.length < e.1.fileName.length) <
      files.entries.countP fun e => before.length < e.1.fileName.length := by
  obtain ⟨place, hplace, -⟩ := FileSystem.isDirectory_eq_true_iff.mp hdirectory
  obtain ⟨above, -, hmem⟩ :=
    FileSystem.mem_names_iff.mp (FileSystem.mem_names_of_locate? hdots hplace)
  obtain ⟨e, he, hpath⟩ := List.mem_map.mp hmem
  have hname : e.1.fileName = after := hpath ▸ FileSystem.fileName_concat above after
  refine countP_lt_countP (fun x _ hx => ?_) he ?_ ?_
  · exact decide_eq_true (hlonger.trans (of_decide_eq_true hx))
  · rw [hname, decide_eq_false_iff_not]
    exact Nat.lt_irrefl _
  · rw [hname]
    exact decide_eq_true hlonger

/-- **Fewer companions may follow a companion.** -/
theorem companionRank_lt (h : companion? files directory = some other) :
    companionRank files other < companionRank files directory := by
  obtain ⟨rfl, hdirectory⟩ := companion?_eq_some h
  by_cases htypes : directory.parent.fileName = "@types"
  · -- A companion of a companion: its longer name is one of those in the directory.
    rw [companion_of_companion htypes] at hdirectory ⊢
    have hlength : ("types__" ++ directory.fileName).length = 7 + directory.fileName.length :=
      String.length_append ..
    have hdots : "types__" ++ directory.fileName ≠ ".." := by
      intro heq
      have hshort : 7 + directory.fileName.length = 2 := hlength.symm.trans (congrArg _ heq)
      omega
    rw [companionRank, companionRank, FileSystem.parent_concat, if_pos htypes, if_pos htypes,
      FileSystem.fileName_concat]
    exact countP_lt_of_isDirectory hdirectory hdots (by omega)
  · by_cases hroot : directory = []
    · subst hroot
      exact Nat.lt_succ_self _
    · -- The first companion is in the directory of companions, and the package was not.
      rw [companionRank, companionRank, if_pos (parent_companion hroot), if_neg htypes,
        if_neg hroot]
      exact Nat.lt_succ_of_le List.countP_le_length

theorem companionRank_lt_bound (files : FileSystem) (directory : Path) :
    companionRank files directory < companionBound files := by
  unfold companionRank companionBound
  split
  · exact Nat.lt_of_le_of_lt List.countP_le_length (by omega)
  · split <;> omega

/-- More companions than can follow need not be tried. -/
theorem typingsWithin?_succ_of_lt {companions : Nat}
    (h : companionRank files directory < companions) :
    typingsWithin? files (companions + 1) directory =
      typingsWithin? files companions directory := by
  induction companions generalizing directory with
  | zero => exact absurd h (Nat.not_lt_zero _)
  | succ companions ih =>
    rw [typingsWithin?_succ, typingsWithin?_succ]
    refine typingsStep_congr fun other hcall => ih ?_
    obtain ⟨-, -, -, hother⟩ := hcall
    exact Nat.lt_of_lt_of_le (companionRank_lt hother) (Nat.le_of_lt_succ h)

/-- **The search through companions** ends at the last of them. -/
theorem isRecursion_typings? (files : FileSystem) :
    IsRecursion (typingsStep files) (CompanionCall files) (typings? files) := by
  refine .of_solves ?_ (fun g h directory => typingsStep_congr) fun directory => ?_
  · refine Subrelation.wf ?_ (measure (companionRank files)).wf
    rintro other directory ⟨-, -, -, hother⟩
    exact companionRank_lt hother
  · calc typings? files directory
        = typingsWithin? files (companionBound files + 1) directory :=
          (typingsWithin?_succ_of_lt (companionRank_lt_bound files directory)).symm
      _ = typingsStep files (typings? files) directory := typingsWithin?_succ ..

end Companions

/-! ## Conditions of an export -/

section Conditions

variable {find : String → Option Path} {entry : Json}

/-- The search under the conditions of an export, where `self` is the search in the conditions of
one of them. -/
def conditionStep (find : String → Option Path) (self : Json → Option Path) :
    Json → Option Path
  | .string s => if isDeclarationFile s then find s else none
  | .object members =>
    ((members.lookup "types").bind (·.string?.bind find)).or
      (members.findSome? fun m => if m.1 != "types" && m.2.isObject then self m.2 else none)
  | _ => none

/-- The search goes on in the conditions under any name but the one for types. -/
def ConditionCall (value entry : Json) : Prop :=
  ∃ members name, entry = .object members ∧ (name, value) ∈ members ∧ name ≠ "types" ∧
    value.isObject = true

theorem findSome?_congr {α β : Type} {f g : α → Option β} {as : List α}
    (h : ∀ a ∈ as, f a = g a) : as.findSome? f = as.findSome? g := by
  induction as with
  | nil => rfl
  | cons a as ih =>
    obtain ⟨ha, has⟩ := List.forall_mem_cons.mp h
    rw [List.findSome?_cons, List.findSome?_cons, ha, ih has]

theorem conditionStep_congr {g h : Json → Option Path}
    (hcall : ∀ value, ConditionCall value entry → g value = h value) :
    conditionStep find g entry = conditionStep find h entry := by
  cases entry with
  | object members =>
    refine congrArg (Option.or _) (findSome?_congr fun m hm => ?_)
    by_cases hinto : (m.1 != "types" && m.2.isObject) = true
    · obtain ⟨hname, hobject⟩ := Bool.and_eq_true_iff.mp hinto
      rw [if_pos hinto, if_pos hinto]
      exact hcall m.2 ⟨members, m.1, rfl, hm, bne_iff_ne.mp hname, hobject⟩
    · rw [if_neg hinto, if_neg hinto]
  | _ => rfl

theorem memberTypings?_eq_findSome? (find : String → Option Path)
    (members : List (String × Json)) :
    memberTypings? find members = members.findSome? fun m =>
      if m.1 != "types" && m.2.isObject then conditionTypings? find m.2 else none := by
  induction members with
  | nil => rw [memberTypings?, List.findSome?_nil]
  | cons m rest ih =>
    rw [memberTypings?, ih, List.findSome?_cons]
    cases (if m.1 != "types" && m.2.isObject then conditionTypings? find m.2 else none) <;> rfl

/-- A condition is a part of those around it. -/
theorem sizeOf_lt_of_conditionCall {value : Json} (h : ConditionCall value entry) :
    sizeOf value < sizeOf entry := by
  obtain ⟨members, name, rfl, hmem, -, -⟩ := h
  have hmember := List.sizeOf_lt_of_mem hmem
  simp only [Prod.mk.sizeOf_spec, Json.object.sizeOf_spec] at *
  omega

/-- **The search under conditions** ends in every tree of them. -/
theorem isRecursion_conditionTypings? (find : String → Option Path) :
    IsRecursion (conditionStep find) ConditionCall (conditionTypings? find) := by
  refine .of_solves ?_ (fun g h entry => conditionStep_congr) fun entry => ?_
  · exact Subrelation.wf sizeOf_lt_of_conditionCall (measure sizeOf).wf
  · cases entry with
    | object members => rw [conditionTypings?, memberTypings?_eq_findSome?, conditionStep]
    | string s => rw [conditionTypings?, conditionStep]
    | _ => simp only [conditionTypings?, conditionStep]

end Conditions

/-! ## Files behind each other -/

section Visits

variable {files : FileSystem} {package : Path}

/-- A file that is read, and how it was met. -/
structure ExportVisit where
  /-- The number of files on the way to it. -/
  depth : Nat
  /-- Whether another package was entered on the way. -/
  inForeign : Bool
  /-- The file. -/
  file : DeclarationFile

/-- The visit of the file behind a specifier, if there is one that can be read. -/
def ExportVisit.next? (files : FileSystem) (package : Path) (v : ExportVisit)
    (specifier : String) : Except Fault (Option ExportVisit) :=
  (exportSource? files specifier v.file.place package v.inForeign).map fun source =>
    source.bind fun s => (files.readText? s.place).map fun text =>
      ⟨v.depth + 1, v.inForeign || s.foreign, ⟨s.place, text⟩⟩

/-- Reading a file, where `self` reads the files whose exports it passes on. -/
def exportStep (files : FileSystem) (package : Path) (self : ExportVisit → Except Fault Api)
    (v : ExportVisit) : Except Fault Api :=
  if v.depth < maxExportDepth then
    ((passedOn v.file.content).mapM fun specifier =>
      (v.next? files package specifier).bind fun
        | none => .ok none
        | some next => (self next).map some).map fun apis =>
          withPassedOn v.file.content (mergeApis (apis.filterMap id))
  else
    let exports := firstPerKey id (declaredNames v.file.content ++ listedNames v.file.content)
    .ok ⟨exports, ownMembers v.file.content exports .empty⟩

/-- Reading goes on to a file whose exports are passed on, down to the depth. -/
def VisitCall (files : FileSystem) (package : Path) (next v : ExportVisit) : Prop :=
  v.depth < maxExportDepth ∧
    ∃ specifier ∈ passedOn v.file.content, v.next? files package specifier = .ok (some next)

/-- The exports of a file that is visited. -/
def apiFrom (files : FileSystem) (package : Path) (v : ExportVisit) : Except Fault Api :=
  apiOf files package (maxExportDepth - v.depth) v.inForeign v.file.place v.file.content

theorem exportStep_congr {g h : ExportVisit → Except Fault Api} {v : ExportVisit}
    (hcall : ∀ next, VisitCall files package next v → g next = h next) :
    exportStep files package g v = exportStep files package h v := by
  unfold exportStep
  split
  · rename_i hdepth
    refine congrArg (Except.map _) (mapM_congr fun specifier hmem => ?_)
    cases hnext : v.next? files package specifier with
    | error fault => rfl
    | ok found =>
      cases found with
      | none => rfl
      | some next =>
        exact congrArg (Except.map some) (hcall next ⟨hdepth, specifier, hmem, hnext⟩)
  · rfl

theorem depth_of_next? {v next : ExportVisit} {specifier : String}
    (h : v.next? files package specifier = .ok (some next)) : next.depth = v.depth + 1 := by
  obtain ⟨source, -, hsource⟩ := map_eq_ok_iff.mp h
  obtain ⟨s, -, hs⟩ := Option.bind_eq_some_iff.mp hsource
  obtain ⟨text, -, rfl⟩ := Option.map_eq_some_iff.mp hs
  rfl

/-- What is behind a specifier is what its visit gives. -/
theorem passedOnApi?_eq_next? {v : ExportVisit} {levels : Nat}
    (hlevels : maxExportDepth - v.depth = levels + 1) (specifier : String) :
    passedOnApi? files package levels v.inForeign v.file.place specifier =
      (v.next? files package specifier).bind fun
        | none => .ok none
        | some next => (apiFrom files package next).map some := by
  have hbelow : maxExportDepth - (v.depth + 1) = levels := by omega
  unfold passedOnApi? ExportVisit.next?
  cases exportSource? files specifier v.file.place package v.inForeign with
  | error fault => rfl
  | ok source =>
    cases source with
    | none => rfl
    | some s =>
      simp only [Except.bind, Except.map, Option.bind_some]
      cases files.readText? s.place with
      | none => rfl
      | some text =>
        simp only [Option.map_some, apiFrom, hbelow]

/-- **Reading files behind each other** ends at the depth, also where they pass on each other's
exports in a circle. -/
theorem isRecursion_apiFrom (files : FileSystem) (package : Path) :
    IsRecursion (exportStep files package) (VisitCall files package) (apiFrom files package) := by
  refine .of_solves ?_ (fun g h v => exportStep_congr) fun v => ?_
  · refine Subrelation.wf ?_ (measure fun v : ExportVisit => maxExportDepth - v.depth).wf
    rintro next v ⟨hdepth, specifier, -, hnext⟩
    have hnext := depth_of_next? hnext
    exact Nat.sub_lt_sub_left hdepth (by omega)
  · unfold exportStep
    split
    · rename_i hdepth
      obtain ⟨levels, hlevels⟩ := Nat.exists_eq_succ_of_ne_zero (Nat.sub_ne_zero_of_lt hdepth)
      rw [apiFrom, hlevels, apiOf_succ]
      exact congrArg (Except.map _)
        (mapM_congr fun specifier _ => passedOnApi?_eq_next? hlevels specifier)
    · rename_i hdepth
      rw [apiFrom, Nat.sub_eq_zero_of_le (Nat.le_of_not_lt hdepth)]
      rfl

end Visits

/-! ## What is found -/

section Found

variable {files : FileSystem} {directory found : Path}

theorem isFile_of_existing? {place : Path} (h : existing? files place = some found) :
    files.isFile found = true := by
  unfold existing? at h
  split at h
  · rename_i hfile
    exact Option.some.inj h ▸ hfile
  · cases h

/-- What is found under conditions was found under a written path. -/
theorem exists_find_of_conditionTypings? {find : String → Option Path} {entry : Json}
    (h : conditionTypings? find entry = some found) : ∃ s, find s = some found := by
  refine (isRecursion_conditionTypings? find).forall_of_step
    (P := fun _ result => result = some found → ∃ s, find s = some found) ?_ entry h
  intro entry ih hfound
  unfold conditionStep at hfound
  split at hfound
  · rename_i s
    split at hfound
    · exact ⟨s, hfound⟩
    · cases hfound
  · rename_i members
    rcases Option.or_eq_some_iff.mp hfound with hfound | ⟨-, hfound⟩
    · obtain ⟨value, -, hvalue⟩ := Option.bind_eq_some_iff.mp hfound
      obtain ⟨s, -, hs⟩ := Option.bind_eq_some_iff.mp hvalue
      exact ⟨s, hs⟩
    · obtain ⟨m, hm, hvalue⟩ := List.exists_of_findSome?_eq_some hfound
      split at hvalue
      · rename_i hinto
        obtain ⟨hname, hobject⟩ := Bool.and_eq_true_iff.mp hinto
        exact ih m.2 ⟨members, m.1, rfl, hm, bne_iff_ne.mp hname, hobject⟩ hvalue
      · cases hvalue
  · cases hfound

theorem isFile_of_ownTypings? {manifest : Json}
    (h : ownTypings? files directory manifest = some found) : files.isFile found = true := by
  unfold ownTypings? at h
  simp only [Option.or_eq_some_iff] at h
  rcases h with hexports | ⟨-, htypes | ⟨-, htypings | ⟨-, hmain | ⟨-, hindex⟩⟩⟩⟩
  · unfold exportedTypings? at hexports
    split at hexports
    · obtain ⟨s, hs⟩ := exists_find_of_conditionTypings? hexports
      exact isFile_of_existing? hs
    · cases hexports
  · obtain ⟨s, -, hs⟩ := Option.bind_eq_some_iff.mp htypes
    exact isFile_of_existing? hs
  · obtain ⟨s, -, hs⟩ := Option.bind_eq_some_iff.mp htypings
    exact isFile_of_existing? hs
  · obtain ⟨main, -, hbase⟩ := Option.bind_eq_some_iff.mp hmain
    obtain ⟨ending, -, hplace⟩ := List.exists_of_findSome?_eq_some hbase
    exact isFile_of_existing? hplace
  · obtain ⟨ending, -, hplace⟩ := List.exists_of_findSome?_eq_some hindex
    exact isFile_of_existing? hplace

/-- **The declaration file of a package is a file.** -/
theorem isFile_of_typings? (h : typings? files directory = .ok (some found)) :
    files.isFile found = true := by
  refine (isRecursion_typings? files).forall_of_step
    (P := fun _ result => result = .ok (some found) → files.isFile found = true) ?_ directory h
  intro directory ih hfound
  obtain ⟨read, hmanifest, hrest⟩ := bind_eq_ok_iff.mp hfound
  cases read with
  | none => cases hrest
  | some manifest =>
    cases hown : ownTypings? files directory manifest with
    | some place =>
      simp only [hown] at hrest
      obtain rfl := Option.some.inj (Except.ok.inj hrest)
      exact isFile_of_ownTypings? hown
    | none =>
      cases hother : companion? files directory with
      | none =>
        simp only [hown, hother] at hrest
        cases hrest
      | some other =>
        simp only [hown, hother] at hrest
        exact ih other ⟨manifest, hmanifest, hown, hother⟩ hrest

end Found

/-! ## The whole search -/

/-- What is known of the package in the directory `package` if this is its declaration file: the
exports remembered, or else those that are read off its text. -/
def apiBehind (files : FileSystem) (package : Path) (cache : ApiCache) :
    Option Path → Except Fault (Option Api)
  | none => .ok none
  | some entry =>
    match cache.find? (cacheKey files entry), files.readText? entry with
    | some api, _ => .ok (some api)
    | none, none => .ok none
    | none, some text => (apiFrom files package ⟨0, false, ⟨entry, text⟩⟩).map some

theorem resolveApi_eq_bind (files : FileSystem) (packages : Path) (name : String)
    (cache : ApiCache) :
    (resolveApi files packages name cache).1 =
      (packageTypings? files packages name).bind
        (apiBehind files (packages.join name) cache) := by
  unfold resolveApi
  cases packageTypings? files packages name with
  | error fault => rfl
  | ok found =>
    cases found with
    | none => rfl
    | some entry =>
      simp only [Except.bind, apiBehind]
      cases cache.find? (cacheKey files entry) with
      | some api => rfl
      | none =>
        cases files.readText? entry with
        | none => rfl
        | some text =>
          simp only [apiFrom, Nat.sub_zero]
          cases apiOf files (packages.join name) maxExportDepth false entry text <;> rfl

/-- Where there are exports, a declaration file was found. -/
theorem typings?_of_resolveApi {files : FileSystem} {packages : Path} {name : String}
    {cache : ApiCache} {api : Api}
    (h : (resolveApi files packages name cache).1 = .ok (some api)) :
    ∃ entry, typings? files (packages.join name) = .ok (some entry) := by
  rw [resolveApi_eq_bind] at h
  obtain ⟨found, hfound, hapi⟩ := bind_eq_ok_iff.mp h
  cases found with
  | none => cases hapi
  | some entry =>
    unfold packageTypings? at hfound
    dsimp only at hfound
    split at hfound
    · exact ⟨entry, hfound⟩
    · cases hfound

/-- **The search for the exports of a package ends** on every file system: it is made of three
recursions, none of which goes on for ever, whatever companions stand beside each other, however
conditions lie inside each other, and in whatever circles files pass on their exports.  A
declaration file that is found is a file, and wherever there are exports, one was found. -/
theorem resolution_ends (files : FileSystem) :
    IsRecursion (typingsStep files) (CompanionCall files) (typings? files) ∧
    (∀ find, IsRecursion (conditionStep find) ConditionCall (conditionTypings? find)) ∧
    (∀ package, IsRecursion (exportStep files package) (VisitCall files package)
      (apiFrom files package)) ∧
    (∀ packages name cache, (resolveApi files packages name cache).1 =
      (packageTypings? files packages name).bind (apiBehind files (packages.join name) cache)) ∧
    (∀ directory entry, typings? files directory = .ok (some entry) → files.isFile entry = true) ∧
    ∀ packages name cache api, (resolveApi files packages name cache).1 = .ok (some api) →
      ∃ entry, typings? files (packages.join name) = .ok (some entry) ∧
        files.isFile entry = true := by
  refine ⟨isRecursion_typings? files, isRecursion_conditionTypings?, isRecursion_apiFrom files,
    resolveApi_eq_bind files, fun _ _ => isFile_of_typings?, fun packages name cache api h => ?_⟩
  obtain ⟨entry, hentry⟩ := typings?_of_resolveApi h
  exact ⟨entry, hentry, isFile_of_typings? hentry⟩

/-- A package without declarations, and companions behind each other of which the last one holds a
file that passes on its own exports. -/
def companionChain : FileSystem :=
  ⟨[(["node_modules"], .directory),
    (["node_modules", "x"], .directory),
    (["node_modules", "x", "package.json"], .file (.text "\x7b\x7d".toList)),
    (["node_modules", "@types"], .directory),
    (["node_modules", "@types", "x"], .directory),
    (["node_modules", "@types", "x", "package.json"], .file (.text "\x7b\x7d".toList)),
    (["node_modules", "@types", "types__x"], .directory),
    (["node_modules", "@types", "types__x", "package.json"], .file (.text "\x7b\x7d".toList)),
    (["node_modules", "@types", "types__types__x"], .directory),
    (["node_modules", "@types", "types__types__x", "package.json"],
      .file (.text "\x7b\x7d".toList)),
    (["node_modules", "@types", "types__types__x", "index.d.ts"], .file (.text
      "export const one: number;\nexport * from './index';\n".toList))]⟩

/-- The search goes through all of the companions, and the circle ends at the depth. -/
theorem resolution_ends_companionChain :
    ∃ api, (resolveApi companionChain ["node_modules"] "x" .empty).1 = .ok (some api) ∧
      api.exports = ["one"] ∧
      ∃ entry, typings? companionChain ["node_modules", "x"] = .ok (some entry) ∧
        companionChain.isFile entry = true := by
  have hfound : ((resolveApi companionChain ["node_modules"] "x" .empty).1.toOption.map
      fun api => api.map Api.exports) = some (some ["one"]) := by
    decide +kernel
  obtain ⟨found, hok, hexports⟩ := Option.map_eq_some_iff.mp hfound
  obtain ⟨api, rfl, hnames⟩ := Option.map_eq_some_iff.mp hexports
  have hapi := eq_ok_of_toOption_eq_some hok
  exact ⟨api, hapi, hnames,
    (resolution_ends companionChain).2.2.2.2.2 ["node_modules"] "x" .empty api hapi⟩

end PlanAudit.Packages
