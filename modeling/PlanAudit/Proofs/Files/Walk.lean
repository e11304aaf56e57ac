import PlanAudit.Proofs.Files.Append

/-!
# Where a path leads, and what is added there

A path is walked segment by segment, and links on the way are replaced by their targets.  A walk can
be interrupted: from the directory that the first segments lead to, the others lead to the same
place as before.  This is how the directories on the way to a file are made, and why a text that is
added to a file is found under the path of the file afterwards.

## Main definitions

* `Reached`: a directory as a walk reaches it
* `Leads`: where a walk leads
* `Fresh`: a path under which a text can be added, and nothing is so far

## Main results

* `locateWithin_eq_some_iff`: the walks are those that are computed
* `Leads.split`, `Leads.append`: a walk in two parts
* `makeDirectories?_of_locate?`: on the way to what is there no directory is made
* `content?_append?`: what a file holds after a text was added
* `fresh_of_directory`: a name that is free in a directory is fresh
-/

namespace PlanAudit.FileSystem

variable {fs : FileSystem}

/-! ## Directories that a walk reaches -/

/-- A directory with no links and no double dots on the way. -/
inductive Reached (fs : FileSystem) : Path → Prop
  | root : Reached fs []
  | into {base : Path} {segment : String} : Reached fs base → segment ≠ ".." →
      fs.storedAt? (base ++ [segment]) = some .directory → Reached fs (base ++ [segment])

theorem Reached.storedAt? {base : Path} (h : Reached fs base) :
    fs.storedAt? base = some .directory := by
  cases h with
  | root => rfl
  | into _ _ hstored => exact hstored

theorem Reached.dropLast {base : Path} (h : Reached fs base) : Reached fs base.dropLast := by
  cases h with
  | root => exact .root
  | into hbase _ _ => rwa [List.dropLast_concat]

/-! ## One step of a walk -/

/-- What a walk that may follow `links` links does at one. -/
def atLink (fs : FileSystem) : Nat → LinkRule
  | 0 => fun _ _ _ _ => none
  | links + 1 => fun base _ target rest =>
    fs.locateWithin links (afterLink base target rest).1 (afterLink base target rest).2

theorem locateWithin_eq_walk (fs : FileSystem) (links : Nat) :
    fs.locateWithin links = fs.walk true (fs.atLink links) := by
  cases links <;> rfl

theorem locateWithin_nil (fs : FileSystem) (links : Nat) (base : Path) :
    fs.locateWithin links base [] = some base := by
  rw [locateWithin_eq_walk]
  rfl

theorem locateWithin_cons (fs : FileSystem) (links : Nat) (base : Path) (segment : String)
    (rest : List String) :
    fs.locateWithin links base (segment :: rest) =
      if segment = ".." then fs.locateWithin links base.dropLast rest
      else
        match fs.storedAt? (base ++ [segment]) with
        | some (.link target) => fs.atLink links base segment target rest
        | some .directory => fs.locateWithin links (base ++ [segment]) rest
        | some (.file _) => if rest = [] then some (base ++ [segment]) else none
        | none => none := by
  rw [locateWithin_eq_walk, walk]
  split
  · rfl
  · cases fs.storedAt? (base ++ [segment]) with
    | none => rfl
    | some e =>
      cases e with
      | directory | link => rfl
      | file content => cases rest <;> rfl

/-! ## Walks -/

/-- The walk from a directory along the segments leads to the place, with the given number of links
that may be followed. -/
inductive Leads (fs : FileSystem) (place : Path) : Nat → Path → List String → Prop
  | here {links : Nat} : Leads fs place links place []
  | up {links : Nat} {base : Path} {rest : List String} :
      Leads fs place links base.dropLast rest → Leads fs place links base (".." :: rest)
  | into {links : Nat} {base : Path} {segment : String} {rest : List String} : segment ≠ ".." →
      fs.storedAt? (base ++ [segment]) = some .directory →
      Leads fs place links (base ++ [segment]) rest → Leads fs place links base (segment :: rest)
  | follow {links : Nat} {base : Path} {segment target : String} {rest : List String} :
      segment ≠ ".." → fs.storedAt? (base ++ [segment]) = some (.link target) →
      Leads fs place links (afterLink base target rest).1 (afterLink base target rest).2 →
      Leads fs place (links + 1) base (segment :: rest)
  | file {links : Nat} {base : Path} {segment : String} {content : Content} : segment ≠ ".." →
      fs.storedAt? place = some (.file content) → place = base ++ [segment] →
      Leads fs place links base [segment]

theorem leads_of_locateWithin {links : Nat} {place : Path}
    (hlink : ∀ base segment target rest, segment ≠ ".." →
      fs.storedAt? (base ++ [segment]) = some (.link target) →
      fs.atLink links base segment target rest = some place →
      Leads fs place links base (segment :: rest))
    {base : Path} {segments : List String} (h : fs.locateWithin links base segments = some place) :
    Leads fs place links base segments := by
  -- Links are left to the caller; whatever else is met is one segment less to walk.
  induction segments generalizing base with
  | nil =>
    rw [locateWithin_nil] at h
    rw [Option.some.inj h]
    exact .here
  | cons segment rest ih =>
    rw [locateWithin_cons] at h
    split at h
    · rename_i hdots
      rw [hdots]
      exact .up (ih h)
    · rename_i hdots
      split at h
      · rename_i hstored
        exact hlink _ _ _ _ hdots hstored h
      · rename_i hstored
        exact .into hdots hstored (ih h)
      · rename_i hstored
        split at h
        · rename_i hrest
          obtain rfl := Option.some.inj h
          rw [hrest]
          exact .file hdots hstored rfl
        · cases h
      · cases h

/-- The walks are those that are computed. -/
theorem locateWithin_eq_some_iff {links : Nat} {base place : Path} {segments : List String} :
    fs.locateWithin links base segments = some place ↔ Leads fs place links base segments := by
  constructor
  · -- A link may lengthen what is still to be walked, but then one link less may be followed.
    intro h
    induction links generalizing base segments with
    | zero => exact leads_of_locateWithin (fun _ _ _ _ _ _ hnone => (by cases hnone)) h
    | succ links ih =>
      exact leads_of_locateWithin (fun _ _ _ _ hdots hstored hnext =>
        .follow hdots hstored (ih hnext)) h
  · intro h
    induction h with
    | here => exact locateWithin_nil fs _ _
    | up _ ih => rw [locateWithin_cons, if_pos rfl, ih]
    | into hdots hstored _ ih => rw [locateWithin_cons, if_neg hdots, hstored, ih]
    | follow hdots hstored _ ih =>
      rw [locateWithin_cons, if_neg hdots, hstored]
      exact ih
    | file hdots hstored hplace =>
      rw [locateWithin_cons, if_neg hdots, ← hplace, hstored]
      rfl

namespace Leads

variable {links : Nat} {base place : Path} {segments : List String}

theorem mono (h : Leads fs place links base segments) {links' : Nat} (hle : links ≤ links') :
    Leads fs place links' base segments := by
  induction h generalizing links' with
  | here => exact .here
  | up _ ih => exact .up (ih hle)
  | into hdots hstored _ ih => exact .into hdots hstored (ih hle)
  | follow hdots hstored _ ih =>
    obtain ⟨links', rfl⟩ := Nat.exists_eq_succ_of_ne_zero (Nat.ne_zero_of_lt hle)
    exact .follow hdots hstored (ih (Nat.le_of_succ_le_succ hle))
  | file hdots hstored hplace => exact .file hdots hstored hplace

/-- Where all that is stored stays what it is, but for the contents of files, a walk leads to the
same place. -/
theorem of_kinds {fs' : FileSystem} (h : Leads fs place links base segments)
    (hdirectory : ∀ q, fs.storedAt? q = some .directory → fs'.storedAt? q = some .directory)
    (hlink : ∀ q target, fs.storedAt? q = some (.link target) →
      fs'.storedAt? q = some (.link target))
    (hfile : ∀ q content, fs.storedAt? q = some (.file content) →
      ∃ content', fs'.storedAt? q = some (.file content')) :
    Leads fs' place links base segments := by
  induction h with
  | here => exact .here
  | up _ ih => exact .up ih
  | into hdots hstored _ ih => exact .into hdots (hdirectory _ hstored) ih
  | follow hdots hstored _ ih => exact .follow hdots (hlink _ _ hstored) ih
  | file hdots hstored hplace =>
    obtain ⟨content', hstored'⟩ := hfile _ _ hstored
    exact .file hdots hstored' hplace

/-- A walk that goes on from a directory goes on from there. -/
theorem append {middle : Path} (h : Leads fs middle links base segments)
    (hmiddle : fs.storedAt? middle = some .directory) {rest : List String}
    (hrest : Leads fs place 0 middle rest) : Leads fs place links base (segments ++ rest) := by
  induction h with
  | here => exact hrest.mono (Nat.zero_le _)
  | up _ ih => exact .up ih
  | into hdots hstored _ ih => exact .into hdots hstored ih
  | follow hdots hstored _ ih =>
    -- What is walked behind a link goes on with the rest as well.
    rename_i base segment target after _
    have hnext : (afterLink base target (after ++ rest)).2 =
        (afterLink base target after).2 ++ rest := (List.append_assoc ..).symm
    rw [List.cons_append]
    exact .follow hdots hstored (by rw [hnext]; exact ih)
  | file _ hstored _ =>
    -- A walk that ends at a file does not end at a directory.
    rw [hmiddle] at hstored
    cases hstored

/-- A walk can be interrupted: its first segments lead to a directory, and the others lead from
there to the same place. -/
theorem split {first rest : List String} (h : Leads fs place links base (first ++ rest))
    (hbase : Reached fs base)
    (hrest : rest ≠ [] ∨ fs.storedAt? place = some .directory) :
    ∃ middle, Leads fs middle links base first ∧ Reached fs middle ∧
      Leads fs place links middle rest := by
  generalize hsegments : first ++ rest = segments at h
  induction h generalizing first with
  | here =>
    obtain ⟨rfl, rfl⟩ := List.append_eq_nil_iff.mp hsegments
    exact ⟨place, .here, hbase, .here⟩
  | up hnext ih =>
    cases first with
    | nil =>
      obtain rfl : rest = _ := hsegments
      exact ⟨_, .here, hbase, .up hnext⟩
    | cons segment first =>
      obtain ⟨rfl, htail⟩ := List.cons.inj hsegments
      obtain ⟨middle, hfirst, hmiddle, hlast⟩ := ih hbase.dropLast htail
      exact ⟨middle, .up hfirst, hmiddle, hlast⟩
  | into hdots hstored hnext ih =>
    cases first with
    | nil =>
      obtain rfl : rest = _ := hsegments
      exact ⟨_, .here, hbase, .into hdots hstored hnext⟩
    | cons segment first =>
      obtain ⟨rfl, htail⟩ := List.cons.inj hsegments
      obtain ⟨middle, hfirst, hmiddle, hlast⟩ := ih (hbase.into hdots hstored) htail
      exact ⟨middle, .into hdots hstored hfirst, hmiddle, hlast⟩
  | follow hdots hstored hnext ih =>
    cases first with
    | nil =>
      obtain rfl : rest = _ := hsegments
      exact ⟨_, .here, hbase, .follow hdots hstored hnext⟩
    | cons segment first =>
      rename_i base _ target _
      obtain ⟨rfl, rfl⟩ := List.cons.inj hsegments
      -- The target of a link is walked from the root or from where the link stands.
      have hstart : Reached fs (afterLink base target first).1 := by
        unfold afterLink
        split
        · exact .root
        · exact hbase
      obtain ⟨middle, hfirst, hmiddle, hlast⟩ :=
        ih hstart (List.append_assoc _ first rest)
      exact ⟨middle, .follow hdots hstored hfirst, hmiddle, hlast.mono (Nat.le_succ _)⟩
  | file hdots hstored hplace =>
    cases first with
    | nil =>
      obtain rfl : rest = _ := hsegments
      exact ⟨_, .here, hbase, .file hdots hstored hplace⟩
    | cons segment first =>
      -- Nothing is walked behind a file, and it is no directory.
      obtain ⟨rfl, hnil⟩ := List.cons.inj hsegments
      obtain ⟨rfl, rfl⟩ := List.append_eq_nil_iff.mp hnil
      rw [hstored] at hrest
      rcases hrest with hrest | hrest
      · exact absurd rfl hrest
      · cases hrest

end Leads

theorem locateWithin_reached {base : Path} (h : Reached fs base) (links : Nat)
    (rest : List String) :
    fs.locateWithin links [] (base ++ rest) = fs.locateWithin links base rest := by
  induction h generalizing rest with
  | root => rfl
  | into _ hdots hstored ih =>
    rw [List.append_assoc, ih, List.singleton_append, locateWithin_cons, if_neg hdots, hstored]

/-! ## Making directories on the way to what is there -/

theorem locate?_reached_append {base place : Path} (first : List String) {rest : List String}
    (hbase : Reached fs base) (h : fs.locate? (base ++ (first ++ rest)) = some place)
    (hrest : rest ≠ [] ∨ fs.storedAt? place = some .directory) :
    ∃ middle, fs.locate? (base ++ first) = some middle ∧ Reached fs middle ∧
      fs.locate? (middle ++ rest) = some place := by
  rw [locate?, locateWithin_reached hbase, locateWithin_eq_some_iff] at h
  obtain ⟨middle, hfirst, hmiddle, hlast⟩ := h.split hbase hrest
  refine ⟨middle, ?_, hmiddle, ?_⟩
  · rw [locate?, locateWithin_reached hbase, locateWithin_eq_some_iff]
    exact hfirst
  · rw [locate?, locateWithin_reached hmiddle, locateWithin_eq_some_iff]
    exact hlast

/-- One more directory is made on the way. -/
def makeStep (made : Option (FileSystem × Path)) (segment : String) : Option (FileSystem × Path) :=
  made.bind fun (fs, base) =>
    match fs.locate? (base ++ [segment]) with
    | some place => if fs.storedAt? place = some .directory then some (fs, place) else none
    | none =>
      if fs.storedAt? (base ++ [segment]) = none then
        some (fs.store (base ++ [segment]) .directory, base ++ [segment])
      else none

theorem makeDirectories?_eq_foldl (p : Path) :
    fs.makeDirectories? p = p.foldl makeStep (some (fs, [])) := rfl

theorem foldl_makeStep (base : Path) {place : Path} {first rest : List String}
    (hbase : Reached fs base) (h : fs.locate? (base ++ (first ++ rest)) = some place)
    (hrest : rest ≠ [] ∨ fs.storedAt? place = some .directory) :
    ∃ middle, first.foldl makeStep (some (fs, base)) = some (fs, middle) ∧ Reached fs middle ∧
      fs.locate? (middle ++ rest) = some place := by
  induction first generalizing base with
  | nil => exact ⟨base, rfl, hbase, h⟩
  | cons segment first ih =>
    have hafter : first ++ rest ≠ [] ∨ fs.storedAt? place = some .directory :=
      hrest.imp_left fun hne hnil => hne (List.append_eq_nil_iff.mp hnil).2
    obtain ⟨next, hnext, hreached, hplace⟩ :=
      locate?_reached_append [segment] hbase h hafter
    have hstep : makeStep (some (fs, base)) segment = some (fs, next) := by
      simp [makeStep, hnext, hreached.storedAt?]
    rw [List.foldl_cons, hstep]
    exact ih next hreached hplace

/-- On the way to what is there no directory is made, and the way goes on from the last one. -/
theorem makeDirectories?_of_locate? {first rest : List String} {place : Path}
    (h : fs.locate? (first ++ rest) = some place)
    (hrest : rest ≠ [] ∨ fs.storedAt? place = some .directory) :
    ∃ directory, fs.makeDirectories? first = some (fs, directory) ∧ Reached fs directory ∧
      fs.locate? (directory ++ rest) = some place := by
  rw [makeDirectories?_eq_foldl]
  exact foldl_makeStep [] .root h hrest

/-! ## Adding to a file that is there -/

theorem content?_eq_some_iff {p : Path} {c : Content} :
    fs.content? p = some c ↔
      ∃ place, fs.locate? p = some place ∧ fs.storedAt? place = some (.file c) := by
  unfold content? target?
  cases hplace : fs.locate? p with
  | none => simp
  | some place =>
    rw [Option.bind_some]
    cases hstored : fs.storedAt? place with
    | none => simp [hstored]
    | some e => cases e <;> simp [hstored]

theorem parent_concat (p : Path) (name : String) : Path.parent (p ++ [name]) = p :=
  List.dropLast_concat

theorem fileName_concat (p : Path) (name : String) : Path.fileName (p ++ [name]) = name := by
  rw [Path.fileName, List.getLast?_concat, Option.getD_some]

theorem parent_append_fileName {p : Path} (h : p ≠ []) : p.parent ++ [p.fileName] = p := by
  rw [Path.parent, Path.fileName, List.getLast?_eq_some_getLast h]
  exact List.dropLast_append_getLast h

theorem ne_nil_of_content? {p : Path} {c : Content} (h : fs.content? p = some c) : p ≠ [] := by
  rintro rfl
  cases h

theorem locate?_store_file {p q place : Path} {c c' : Content}
    (hq : fs.storedAt? q = some (.file c)) (h : fs.locate? p = some place) :
    (fs.store q (.file c')).locate? p = some place := by
  have hne : q ≠ [] := by
    rintro rfl
    cases hq
  -- Whatever is no file with the old content stays what it is.
  have hother : ∀ x e, fs.storedAt? x = some e → e ≠ .file c →
      (fs.store q (.file c')).storedAt? x = some e := by
    intro x e hx hfile
    rw [storedAt?_store_of_ne hne, hx]
    rintro rfl
    exact hfile (Option.some.inj (hx.symm.trans hq))
  refine locateWithin_eq_some_iff.mpr ((locateWithin_eq_some_iff.mp h).of_kinds ?_ ?_ ?_)
  · exact fun x hx => hother x _ hx Entry.noConfusion
  · exact fun x target hx => hother x _ hx Entry.noConfusion
  · intro x content hx
    rw [storedAt?_store hne]
    split
    · exact ⟨c', rfl⟩
    · exact ⟨content, hx⟩

/-- **A text that is added to a file is at its end afterwards.** -/
theorem content?_append? {p : Path} {c : Content} (h : fs.content? p = some c)
    (more : List Char) :
    ∃ fs', fs.append? p more = some fs' ∧ fs'.content? p = some (c.append more) := by
  have hp := parent_append_fileName (ne_nil_of_content? h)
  obtain ⟨place, hplace, hstored⟩ := content?_eq_some_iff.mp h
  have hway : fs.locate? (p.parent ++ [p.fileName]) = some place := by rwa [hp]
  -- Nothing has to be made on the way, and the text goes to the end of the file that is found.
  obtain ⟨directory, hmade, -, hlocate⟩ :=
    makeDirectories?_of_locate? hway (.inl (List.cons_ne_nil p.fileName []))
  have hne : place ≠ [] := by
    rintro rfl
    cases hstored
  refine ⟨fs.store place (.file (c.append more)), ?_, ?_⟩
  · rw [append?, hmade, Option.bind_some]
    simp only [hlocate, hstored]
  · exact content?_eq_some_iff.mpr
      ⟨place, locate?_store_file hstored hplace, storedAt?_store_self hne⟩

/-! ## Files that are not there yet -/

/-- No file is there, and a text that is added makes one that holds it. -/
structure Fresh (fs : FileSystem) (p : Path) : Prop where
  absent : fs.content? p = none
  writable : ∀ text, ∃ fs', fs.append? p text = some fs' ∧ fs'.content? p = some (.text text)

theorem resolveWithin_reached {base : Path} (h : Reached fs base) (links : Nat)
    (rest : List String) :
    fs.resolveWithin links [] (base ++ rest) = fs.resolveWithin links base rest := by
  have hcons : ∀ base segment rest, segment ≠ ".." →
      fs.storedAt? (base ++ [segment]) = some .directory →
      fs.resolveWithin links base (segment :: rest) =
        fs.resolveWithin links (base ++ [segment]) rest := by
    intro base segment rest hdots hstored
    cases links <;> (unfold resolveWithin; rw [walk, if_neg hdots, hstored])
  induction h generalizing rest with
  | root => rfl
  | into _ hdots hstored ih =>
    rw [List.append_assoc, ih, List.singleton_append, hcons _ _ _ hdots hstored]

/-- **A name that is free in a directory is fresh**, under whatever path the directory is found. -/
theorem fresh_of_directory {parent directory : Path} {name : String}
    (hdirectory : fs.locate? parent = some directory)
    (hstored : fs.storedAt? directory = some .directory) (hname : name ≠ "..")
    (hfree : fs.storedAt? (directory ++ [name]) = none) : Fresh fs (parent ++ [name]) := by
  have hway : fs.locate? (parent ++ []) = some directory := by rwa [List.append_nil]
  obtain ⟨middle, hmade, hreached, hlast⟩ := makeDirectories?_of_locate? hway (.inr hstored)
  obtain rfl : middle = directory := by
    rw [locate?, locateWithin_reached hreached, locateWithin_nil] at hlast
    exact Option.some.inj hlast
  -- The name leads nowhere, so that it stands for itself.
  have hnone : fs.locate? (middle ++ [name]) = none := by
    rw [locate?, locateWithin_reached hreached, locateWithin_cons, if_neg hname, hfree]
  have hreal : fs.realPath (middle ++ [name]) = middle ++ [name] := by
    have hwalk : fs.resolveWithin maxLinks middle [name] = some (middle ++ [name]) := by
      simp [resolveWithin, maxLinks, walk, hname, hfree]
    rw [realPath, resolveWithin_reached hreached, hwalk, Option.getD_some]
  have habsent : fs.locate? (parent ++ [name]) = none := by
    rw [Option.eq_none_iff_forall_ne_some]
    intro place hplace
    obtain ⟨other, hother, -, hlocate⟩ :=
      makeDirectories?_of_locate? hplace (.inl (List.cons_ne_nil name []))
    rw [hmade] at hother
    rw [← (Prod.mk.inj (Option.some.inj hother)).2, hnone] at hlocate
    cases hlocate
  refine ⟨?_, ?_⟩
  · rw [content?, target?, habsent]
    rfl
  · intro text
    have hne : middle ++ [name] ≠ [] := List.append_ne_nil_of_right_ne_nil _ (List.cons_ne_nil _ _)
    have hstored' : (fs.store (middle ++ [name]) (.file (.text text))).storedAt?
        (middle ++ [name]) = some (.file (.text text)) := storedAt?_store_self hne
    have hkept : ∀ q e, fs.storedAt? q = some e →
        (fs.store (middle ++ [name]) (.file (.text text))).storedAt? q = some e := by
      intro q e hq
      rw [storedAt?_store_of_ne hne, hq]
      rintro rfl
      rw [hfree] at hq
      cases hq
    refine ⟨fs.store (middle ++ [name]) (.file (.text text)), ?_, ?_⟩
    · rw [append?, parent_concat, fileName_concat, hmade, Option.bind_some]
      simp only [hnone]
      rw [create?, hreal, parent_concat]
      exact if_pos ⟨hfree, hstored⟩
    · -- The way to the directory is the same as before, and the file stands at its end.
      refine content?_eq_some_iff.mpr ⟨middle ++ [name], ?_, hstored'⟩
      have hleads := (locateWithin_eq_some_iff.mp hdirectory).of_kinds (hkept · _)
        (fun q _ => hkept q _) fun q content hq => ⟨content, hkept q _ hq⟩
      exact locateWithin_eq_some_iff.mpr
        (hleads.append (hkept _ _ hstored) (.file hname hstored' rfl))

end PlanAudit.FileSystem
