import Mathlib.Data.List.Sort
import Mathlib.Data.String.Basic
import PlanAudit.Files.Scan
import PlanAudit.Proofs.Fault
import PlanAudit.Proofs.Files.Walk
import PlanAudit.Proofs.Text.FirstPerKey
import PlanAudit.Proofs.Text.Segments

/-!
# The files that a scan lists

A scan lists a file under every way of names that leads to it from the project, as long as the way
is not too long, goes through no directory that is left out, and is not ignored itself.  Links count
as what they lead to, so that a directory may stand below itself; then only the depth ends the scan.
The files of a directory stand behind one another by name, and each of them begins with the way to
the directory, so that the whole list is in the order of the segments.

## Main definitions

* `FileSystem.Proper`: each path is stored once, and its segments can be names
* `Scan.Enters`: the directories that are not left out
* `Listed`: the paths that a scan is to list
* `FilesBelow`: the same, seen from a directory on the way

## Main results

* `mem_scanWithin_iff`: what is listed below a directory
* `pairwise_scanWithin`: it is listed in the order of the segments
* `scan_paths`: the files of a project at every depth, whatever is ignored
-/

namespace PlanAudit

open Text

/-! ## Proper file systems -/

/-- What can name something in a directory. -/
structure IsName (s : String) : Prop extends IsSegment s where
  ne_dot : s ≠ "."
  ne_dots : s ≠ ".."

instance (s : String) : Decidable (IsName s) :=
  decidable_of_iff (IsSegment s ∧ s ≠ "." ∧ s ≠ "..")
    ⟨fun h => ⟨h.1, h.2.1, h.2.2⟩, fun h => ⟨h.1, h.2, h.3⟩⟩

namespace FileSystem

/-- Each path is stored once, and its segments can be names. -/
structure Proper (fs : FileSystem) : Prop where
  nodup : (fs.entries.map Prod.fst).Nodup
  isName : ∀ e ∈ fs.entries, ∀ s ∈ e.1, IsName s

instance (fs : FileSystem) : Decidable fs.Proper :=
  decidable_of_iff ((fs.entries.map Prod.fst).Nodup ∧ ∀ e ∈ fs.entries, ∀ s ∈ e.1, IsName s)
    ⟨fun h => ⟨h.1, h.2⟩, fun h => ⟨h.1, h.2⟩⟩

variable {fs : FileSystem} {p directory place : Path} {name : String}

/-! ## The names in a directory -/

theorem nameIn?_eq_some_iff : nameIn? directory p = some name ↔ p = directory ++ [name] := by
  unfold nameIn?
  constructor
  · intro h
    split at h
    · rename_i hdirectory
      rw [← hdirectory, List.dropLast_append_getLast? name h]
    · cases h
  · rintro rfl
    rw [List.dropLast_concat, if_pos rfl, List.getLast?_concat]

theorem mem_names_iff :
    name ∈ fs.names p ↔
      ∃ directory, fs.locate? p = some directory ∧
        directory ++ [name] ∈ fs.entries.map Prod.fst := by
  unfold names
  cases fs.locate? p with
  | none => simp
  | some directory => simp [List.mem_mergeSort, List.mem_filterMap, nameIn?_eq_some_iff]

theorem isName_of_mem_names (hproper : fs.Proper) (h : name ∈ fs.names p) : IsName name := by
  obtain ⟨directory, -, hmem⟩ := mem_names_iff.mp h
  obtain ⟨e, he, hpath⟩ := List.mem_map.mp hmem
  exact hproper.isName e he name (hpath ▸ List.mem_append_right directory List.mem_cons_self)

/-- The names in a directory are in alphabetical order, and none is there twice. -/
theorem pairwise_names (hproper : fs.Proper) (p : Path) : (fs.names p).Pairwise (· < ·) := by
  unfold names
  cases fs.locate? p with
  | none => exact List.Pairwise.nil
  | some directory =>
    let le (a b : String) : Bool := decide (a ≤ b)
    have htrans : ∀ a b c, le a b = true → le b c = true → le a c = true := fun a b c hab hbc =>
      decide_eq_true (String.le_trans (of_decide_eq_true hab) (of_decide_eq_true hbc))
    have htotal : ∀ a b, (le a b || le b a) = true := fun a b => by
      simpa [le] using String.le_total a b
    have hsorted := List.pairwise_mergeSort htrans htotal
      (fs.entries.filterMap fun e => nameIn? directory e.1)
    have hdistinct : (fs.entries.filterMap fun e => nameIn? directory e.1).Nodup := by
      have hnames := hproper.nodup.filterMap (f := nameIn? directory)
        fun a a' b ha ha' =>
          (nameIn?_eq_some_iff.mp ha).trans (nameIn?_eq_some_iff.mp ha').symm
      rwa [List.filterMap_map] at hnames
    have hnodup := (List.mergeSort_perm (fs.entries.filterMap fun e => nameIn? directory e.1)
      fun a b => decide (a ≤ b)).nodup_iff.mpr hdistinct
    exact (hsorted.and hnodup).imp fun h => Std.lt_of_le_of_ne (of_decide_eq_true h.1) h.2

/-! ## Files and directories on a way -/

theorem isFile_eq_true_iff :
    fs.isFile p = true ↔
      ∃ place content, fs.locate? p = some place ∧
        fs.storedAt? place = some (.file content) := by
  unfold isFile target?
  cases fs.locate? p with
  | none => simp
  | some place =>
    rw [Option.bind_some]
    cases hstored : fs.storedAt? place with
    | none => simp [hstored]
    | some e => cases e <;> simp [hstored]

theorem isDirectory_eq_true_iff :
    fs.isDirectory p = true ↔
      ∃ place, fs.locate? p = some place ∧ fs.storedAt? place = some .directory := by
  unfold isDirectory target?
  cases fs.locate? p with
  | none => simp
  | some place =>
    rw [Option.bind_some]
    cases hstored : fs.storedAt? place with
    | none => simp [hstored]
    | some e => cases e <;> simp [hstored]

theorem isDirectory_eq_false_of_isFile (h : fs.isFile p = true) : fs.isDirectory p = false := by
  obtain ⟨place, content, hplace, hstored⟩ := isFile_eq_true_iff.mp h
  rw [Bool.eq_false_iff]
  intro hdirectory
  obtain ⟨place', hplace', hstored'⟩ := isDirectory_eq_true_iff.mp hdirectory
  obtain rfl := Option.some.inj (hplace.symm.trans hplace')
  cases hstored.symm.trans hstored'

/-- What is found below a directory is found under one of the names in it. -/
theorem mem_names_of_locate? (hname : name ≠ "..") (h : fs.locate? (p ++ [name]) = some place) :
    name ∈ fs.names p := by
  obtain ⟨directory, hdirectory, hreached, hplace⟩ :=
    locate?_reached_append p .root h (.inl (List.cons_ne_nil name []))
  rw [locate?, locateWithin_reached hreached, locateWithin_cons, if_neg hname] at hplace
  refine mem_names_iff.mpr ⟨directory, hdirectory, ?_⟩
  -- Whatever stands under the name, it is stored there.
  cases hstored : fs.storedAt? (directory ++ [name]) with
  | none =>
    rw [hstored] at hplace
    cases hplace
  | some e =>
    have hne : directory ++ [name] ≠ [] := by simp
    rw [storedAt?_of_ne_nil hne] at hstored
    obtain ⟨before, after, hentries, -⟩ := List.lookup_eq_some_iff.mp hstored
    simp [hentries]

/-- A way goes on only from a directory. -/
theorem isDirectory_of_isFile_append {rest : List String} (hrest : rest ≠ [])
    (h : fs.isFile (p ++ rest) = true) : fs.isDirectory p = true := by
  obtain ⟨place, content, hplace, -⟩ := isFile_eq_true_iff.mp h
  obtain ⟨directory, hdirectory, hreached, -⟩ :=
    locate?_reached_append p .root hplace (.inl hrest)
  exact isDirectory_eq_true_iff.mpr ⟨directory, hdirectory, hreached.storedAt?⟩

end FileSystem

/-! ## What is to be listed -/

/-- The segments with slashes between them. -/
def written (way : List String) : String := "/".intercalate way

/-- The scan goes into a directory of this name, `above` being the way to it. -/
structure Scan.Enters (scan : Scan) (above : List String) (name : String) : Prop where
  not_skipped : name ∉ scan.skipped
  not_ignored : scan.ignored (written (above ++ [name]) ++ "/") = false

/-- The path is to be listed by a scan of the project down to a depth: it leads to a file, is not
too long, goes through no directory that is left out, and is not ignored. -/
structure Listed (fs : FileSystem) (scan : Scan) (project : Path) (depth : Int) (path : String) :
    Prop where
  isName : ∀ s ∈ segments path, IsName s
  isFile : fs.isFile (project ++ segments path) = true
  length_le : ((segments path).length : Int) ≤ depth + 1
  enters : ∀ above name below, segments path = above ++ name :: below → below ≠ [] →
    scan.Enters above name
  not_ignored : scan.ignored path = false

instance (scan : Scan) (above : List String) (name : String) :
    Decidable (scan.Enters above name) :=
  decidable_of_iff (name ∉ scan.skipped ∧
      scan.ignored (written (above ++ [name]) ++ "/") = false)
    ⟨fun h => ⟨h.1, h.2⟩, fun h => ⟨h.1, h.2⟩⟩

/-- The directories on a way are those at the places before the last. -/
theorem forall_directory_iff {way : List String} {P : List String → String → Prop} :
    (∀ above name below, way = above ++ name :: below → below ≠ [] → P above name) ↔
      ∀ n, (h : n < way.length - 1) → P (way.take n) (way.get ⟨n, by omega⟩) := by
  constructor
  · intro h n hn
    refine h _ _ (way.drop (n + 1)) ?_ ?_
    · rw [List.get_eq_getElem, List.getElem_cons_drop, List.take_append_drop]
    · rw [ne_eq, List.drop_eq_nil_iff]
      omega
  · rintro h above name below rfl hbelow
    have hpos := List.length_pos_of_ne_nil hbelow
    simpa using h above.length (by simp; omega)

instance (fs : FileSystem) (scan : Scan) (project : Path) (depth : Int) (path : String) :
    Decidable (Listed fs scan project depth path) :=
  decidable_of_iff
    ((∀ s ∈ segments path, IsName s) ∧ fs.isFile (project ++ segments path) = true ∧
      ((segments path).length : Int) ≤ depth + 1 ∧
      (∀ n, (h : n < (segments path).length - 1) →
        scan.Enters ((segments path).take n) ((segments path).get ⟨n, by omega⟩)) ∧
      scan.ignored path = false)
    ⟨fun h => ⟨h.1, h.2.1, h.2.2.1, forall_directory_iff.mpr h.2.2.2.1, h.2.2.2.2⟩,
      fun h => ⟨h.1, h.2, h.3, forall_directory_iff.mp h.4, h.5⟩⟩

/-- What is to be listed down to a number of levels below a directory, `above` being the way to it
from the project. -/
structure FilesBelow (fs : FileSystem) (scan : Scan) (project : Path) (levels : Nat)
    (above way : List String) : Prop where
  ne_nil : way ≠ []
  isName : ∀ s ∈ way, IsName s
  isFile : fs.isFile (project ++ (above ++ way)) = true
  length_le : way.length ≤ levels
  enters : ∀ first name rest, way = first ++ name :: rest → rest ≠ [] →
    scan.Enters (above ++ first) name
  not_ignored : scan.ignored (written (above ++ way)) = false

variable {fs : FileSystem} {scan : Scan} {project : Path} {levels : Nat} {above : List String}
  {name path : String}

theorem written_eq_empty_iff {way : List String} (h : ∀ s ∈ way, IsSegment s) :
    written way = "" ↔ way = [] := by
  constructor
  · intro hempty
    by_contra hne
    -- The empty string has one part, which is empty.
    have hparts := segments_intercalate hne fun s hs => (h s hs).not_mem
    have hempty' : way = [""] := hparts.symm.trans (congrArg segments hempty)
    exact (h "" (hempty' ▸ List.mem_cons_self)).ne_empty rfl
  · rintro rfl
    rfl

theorem relativePath_written (habove : ∀ s ∈ above, IsSegment s) (name : String) :
    relativePath (written above) name = written (above ++ [name]) := by
  unfold relativePath
  split
  · rename_i hempty
    rw [(written_eq_empty_iff habove).mp hempty]
    rfl
  · rename_i hne
    have habove' : above ≠ [] := mt (written_eq_empty_iff habove).mpr hne
    rw [written, written, String.intercalate_append_of_ne_nil habove' (List.cons_ne_nil name []),
      String.intercalate_singleton]

namespace FilesBelow

/-- A file in the directory itself. -/
theorem single (hname : IsName name) (hfile : fs.isFile (project ++ (above ++ [name])) = true)
    (hkept : scan.ignored (written (above ++ [name])) = false) :
    FilesBelow fs scan project (levels + 1) above [name] where
  ne_nil := List.cons_ne_nil name []
  isName := by simpa using hname
  isFile := hfile
  length_le := Nat.succ_le_succ (Nat.zero_le levels)
  enters := by
    intro first other rest heq hrest
    have hlength := congrArg List.length heq
    have := List.length_pos_of_ne_nil hrest
    simp at hlength
    omega
  not_ignored := hkept

/-- A file in a directory of the directory. -/
theorem cons {way : List String} (hname : IsName name) (henters : scan.Enters above name)
    (h : FilesBelow fs scan project levels (above ++ [name]) way) :
    FilesBelow fs scan project (levels + 1) above (name :: way) where
  ne_nil := List.cons_ne_nil name way
  isName := by simpa using ⟨hname, h.isName⟩
  isFile := by simpa using h.isFile
  length_le := Nat.succ_le_succ h.length_le
  enters := by
    intro first other rest heq hrest
    cases first with
    | nil =>
      obtain ⟨rfl, rfl⟩ := List.cons.inj heq
      rwa [List.append_nil]
    | cons head first =>
      obtain ⟨rfl, htail⟩ := List.cons.inj heq
      simpa using h.enters first other rest htail hrest
  not_ignored := by simpa using h.not_ignored

/-- A file that is not in the directory itself is in a directory that is gone into. -/
theorem enters_head {way : List String} (hway : way ≠ [])
    (h : FilesBelow fs scan project levels above (name :: way)) : scan.Enters above name := by
  simpa using h.enters [] name way rfl hway

theorem tail {way : List String} (hway : way ≠ [])
    (h : FilesBelow fs scan project (levels + 1) above (name :: way)) :
    FilesBelow fs scan project levels (above ++ [name]) way where
  ne_nil := hway
  isName s hs := h.isName s (List.mem_cons_of_mem name hs)
  isFile := by simpa using h.isFile
  length_le := Nat.le_of_succ_le_succ h.length_le
  enters first other rest heq hrest := by
    simpa using h.enters (name :: first) other rest (congrArg (name :: ·) heq) hrest
  not_ignored := by simpa using h.not_ignored

/-- The way begins with one of the names in the directory. -/
theorem mem_names {way : List String}
    (h : FilesBelow fs scan project levels above (name :: way)) :
    name ∈ fs.names (project ++ above) := by
  have hdots : name ≠ ".." := (h.isName name List.mem_cons_self).ne_dots
  have hfile : fs.isFile (project ++ above ++ [name] ++ way) = true := by simpa using h.isFile
  by_cases hway : way = []
  · rw [hway, List.append_nil] at hfile
    obtain ⟨place, -, hplace, -⟩ := FileSystem.isFile_eq_true_iff.mp hfile
    exact FileSystem.mem_names_of_locate? hdots hplace
  · obtain ⟨place, hplace, -⟩ := FileSystem.isDirectory_eq_true_iff.mp
      (FileSystem.isDirectory_of_isFile_append hway hfile)
    exact FileSystem.mem_names_of_locate? hdots hplace

end FilesBelow

/-! ## What is listed below a directory -/

/-- The files of one name in a directory: itself if it is a file, and those below it if it is a
directory. -/
def filesUnder (fs : FileSystem) (scan : Scan) (project : Path) (levels : Nat)
    (above : List String) (name : String) : List String :=
  if fs.isDirectory (project ++ (above ++ [name])) then
    if scan.skipped.contains name || scan.ignored (written (above ++ [name]) ++ "/") then []
    else scanWithin fs scan levels (project ++ (above ++ [name])) (written (above ++ [name]))
  else if fs.isFile (project ++ (above ++ [name])) &&
      !scan.ignored (written (above ++ [name])) then [written (above ++ [name])]
  else []

theorem scanWithin_succ (habove : ∀ s ∈ above, IsSegment s) :
    scanWithin fs scan (levels + 1) (project ++ above) (written above) =
      (fs.names (project ++ above)).flatMap (filesUnder fs scan project levels above) := by
  simp only [scanWithin, relativePath_written habove, List.append_assoc]
  rfl

theorem filesUnder_of_isDirectory
    (hdirectory : fs.isDirectory (project ++ (above ++ [name])) = true)
    (henters : scan.Enters above name) :
    filesUnder fs scan project levels above name =
      scanWithin fs scan levels (project ++ (above ++ [name])) (written (above ++ [name])) := by
  unfold filesUnder
  rw [if_pos hdirectory, if_neg]
  simpa using ⟨henters.not_skipped, henters.not_ignored⟩

theorem filesUnder_of_isFile (hfile : fs.isFile (project ++ (above ++ [name])) = true)
    (hkept : scan.ignored (written (above ++ [name])) = false) :
    filesUnder fs scan project levels above name = [written (above ++ [name])] := by
  unfold filesUnder
  rw [FileSystem.isDirectory_eq_false_of_isFile hfile, hfile, hkept]
  rfl

/-- All that can be under a name. -/
theorem mem_filesUnder (h : path ∈ filesUnder fs scan project levels above name) :
    (scan.Enters above name ∧
      path ∈ scanWithin fs scan levels (project ++ (above ++ [name])) (written (above ++ [name]))) ∨
    (fs.isFile (project ++ (above ++ [name])) = true ∧
      scan.ignored (written (above ++ [name])) = false ∧
      path = written (above ++ [name])) := by
  unfold filesUnder at h
  split at h
  · split at h
    · cases h
    · rename_i hkept
      simp only [Bool.or_eq_true, List.contains_iff_mem, not_or, Bool.not_eq_true] at hkept
      exact .inl ⟨⟨hkept.1, hkept.2⟩, h⟩
  · split at h
    · rename_i hfile
      simp only [Bool.and_eq_true, Bool.not_eq_true'] at hfile
      exact .inr ⟨hfile.1, hfile.2, List.mem_singleton.mp h⟩
    · cases h

theorem isSegment_append (habove : ∀ s ∈ above, IsSegment s) (hname : IsName name) :
    ∀ s ∈ above ++ [name], IsSegment s := by
  intro s hs
  rcases List.mem_append.mp hs with hs | hs
  · exact habove s hs
  · rw [List.mem_singleton.mp hs]
    exact hname.toIsSegment

/-- **What is listed below a directory** are the files below it. -/
theorem mem_scanWithin_iff (hproper : fs.Proper) (habove : ∀ s ∈ above, IsSegment s) :
    path ∈ scanWithin fs scan levels (project ++ above) (written above) ↔
      ∃ way, FilesBelow fs scan project levels above way ∧ path = written (above ++ way) := by
  induction levels generalizing above with
  | zero =>
    constructor
    · intro h
      cases h
    · rintro ⟨way, hway, -⟩
      exact absurd (List.eq_nil_of_length_eq_zero (Nat.le_zero.mp hway.length_le)) hway.ne_nil
  | succ levels ih =>
    rw [scanWithin_succ habove, List.mem_flatMap]
    constructor
    · rintro ⟨name, hname, hpath⟩
      have hisName := FileSystem.isName_of_mem_names hproper hname
      rcases mem_filesUnder hpath with ⟨henters, hpath⟩ | ⟨hfile, hkept, rfl⟩
      · obtain ⟨way, hway, rfl⟩ := (ih (isSegment_append habove hisName)).mp hpath
        exact ⟨name :: way, hway.cons hisName henters, by simp⟩
      · exact ⟨[name], .single hisName hfile hkept, rfl⟩
    · rintro ⟨way, hway, rfl⟩
      cases way with
      | nil => exact absurd rfl hway.ne_nil
      | cons name rest =>
        refine ⟨name, hway.mem_names, ?_⟩
        -- The last segment is that of the file, every other one that of a directory.
        by_cases hrest : rest = []
        · subst hrest
          rw [filesUnder_of_isFile hway.isFile hway.not_ignored]
          exact List.mem_singleton.mpr rfl
        · have hfile : fs.isFile (project ++ (above ++ [name]) ++ rest) = true := by
            simpa using hway.isFile
          rw [filesUnder_of_isDirectory
            (FileSystem.isDirectory_of_isFile_append hrest hfile) (hway.enters_head hrest)]
          have hisName := hway.isName name List.mem_cons_self
          exact (ih (isSegment_append habove hisName)).mpr
            ⟨rest, hway.tail hrest, by simp⟩

theorem FilesBelow.segments_written {way : List String} (habove : ∀ s ∈ above, IsSegment s)
    (h : FilesBelow fs scan project levels above way) :
    segments (written (above ++ way)) = above ++ way := by
  refine segments_intercalate (by simp [h.ne_nil]) fun s hs => ?_
  rcases List.mem_append.mp hs with hs | hs
  · exact (habove s hs).not_mem
  · exact (h.isName s hs).not_mem

/-! ## The order of what is listed -/

/-- What is under a name begins with the way to it. -/
theorem segments_of_mem_filesUnder (hproper : fs.Proper) (habove : ∀ s ∈ above, IsSegment s)
    (hname : IsName name) (h : path ∈ filesUnder fs scan project levels above name) :
    ∃ rest, segments path = above ++ name :: rest := by
  have hsegments := isSegment_append habove hname
  rcases mem_filesUnder h with ⟨-, h⟩ | ⟨-, -, rfl⟩
  · obtain ⟨way, hway, rfl⟩ := (mem_scanWithin_iff hproper hsegments).mp h
    exact ⟨way, by simpa using hway.segments_written hsegments⟩
  · exact ⟨[], segments_intercalate (by simp) fun s hs => (hsegments s hs).not_mem⟩

/-- **The files below a directory are listed in the order of the segments.** -/
theorem pairwise_scanWithin (hproper : fs.Proper) (habove : ∀ s ∈ above, IsSegment s) :
    (scanWithin fs scan levels (project ++ above) (written above)).Pairwise
      fun a b => segments a < segments b := by
  induction levels generalizing above with
  | zero => exact List.Pairwise.nil
  | succ levels ih =>
    rw [scanWithin_succ habove, List.pairwise_flatMap]
    refine ⟨fun name hname => ?_, ?_⟩
    · have hisName := FileSystem.isName_of_mem_names hproper hname
      unfold filesUnder
      split
      · split
        · exact List.Pairwise.nil
        · exact ih (isSegment_append habove hisName)
      · split
        · exact List.pairwise_singleton _ _
        · exact List.Pairwise.nil
    · -- Under two names the paths part at the names.
      refine (FileSystem.pairwise_names hproper (project ++ above)).imp_of_mem ?_
      intro name name' hname hname' hlt path hpath path' hpath'
      obtain ⟨rest, hrest⟩ := segments_of_mem_filesUnder hproper habove
        (FileSystem.isName_of_mem_names hproper hname) hpath
      obtain ⟨rest', hrest'⟩ := segments_of_mem_filesUnder hproper habove
        (FileSystem.isName_of_mem_names hproper hname') hpath'
      rw [hrest, hrest']
      exact List.append_left_lt (List.cons_lt_cons_iff.mpr (.inl hlt))

/-! ## The files of a project -/

/-- The paths that are to be listed are those of the files below the project. -/
theorem listed_iff {depth : Int} :
    Listed fs scan project depth path ↔
      ∃ way, FilesBelow fs scan project (depth + 1).toNat [] way ∧ path = written way := by
  constructor
  · intro h
    have hne : segments path ≠ [] := by simp [segments]
    have hpath : written (segments path) = path := intercalate_segments path
    refine ⟨segments path, ⟨hne, h.isName, h.isFile, ?_, h.enters, ?_⟩, hpath.symm⟩
    · have := h.length_le
      omega
    · rw [List.nil_append, hpath]
      exact h.not_ignored
  · rintro ⟨way, hway, rfl⟩
    have hsegments : segments (written way) = way :=
      hway.segments_written (fun s hs => by cases hs)
    have hlength := hway.length_le
    have hpos := List.length_pos_of_ne_nil hway.ne_nil
    refine ⟨?_, ?_, ?_, ?_, hway.not_ignored⟩
    · rw [hsegments]
      exact hway.isName
    · rw [hsegments]
      exact hway.isFile
    · rw [hsegments]
      omega
    · rw [hsegments]
      exact hway.enters

theorem mem_listing_iff (hproper : fs.Proper) {depth : Int} :
    path ∈ (fs.listing scan project depth).paths ↔ Listed fs scan project depth path := by
  have hroot : path ∈ scanWithin fs scan (depth + 1).toNat (project ++ []) (written []) ↔ _ :=
    mem_scanWithin_iff hproper fun s hs => by cases hs
  rw [List.append_nil] at hroot
  exact mem_firstPerKey_id.trans (hroot.trans listed_iff.symm)

theorem pairwise_listing (hproper : fs.Proper) (scan : Scan) (project : Path) (depth : Int) :
    (fs.listing scan project depth).paths.Pairwise fun a b => segments a < segments b := by
  have hroot : (scanWithin fs scan (depth + 1).toNat (project ++ []) (written [])).Pairwise _ :=
    pairwise_scanWithin hproper fun s hs => by cases hs
  rw [List.append_nil] at hroot
  exact hroot.sublist (firstPerKey_sublist id _)

/-- A lesser depth lists the same files, but for those that are too deep. -/
theorem listed_of_le {depth depth' : Int} (hle : depth ≤ depth') :
    Listed fs scan project depth path ↔
      Listed fs scan project depth' path ∧ ((segments path).length : Int) ≤ depth + 1 := by
  constructor
  · intro h
    exact ⟨{ h with length_le := by have := h.length_le; omega }, h.length_le⟩
  · rintro ⟨h, hlength⟩
    exact { h with length_le := hlength }

/-- **The files of a project**, at every depth and whatever is ignored: a scan ends, and it lists
exactly the files that are to be listed, in the order of their segments and none of them twice; a
lesser depth lists those of a greater one that are not too deep.  The tree of the project is this
listing where its ignore file tells what is ignored. -/
theorem scan_paths (hproper : fs.Proper) (scan : Scan) (project : Path) :
    (∀ depth,
      (∀ path, path ∈ (fs.listing scan project depth).paths ↔ Listed fs scan project depth path) ∧
      (fs.listing scan project depth).paths.Pairwise (fun a b => segments a < segments b) ∧
      (fs.listing scan project depth).paths.Nodup) ∧
    (∀ depth depth', depth ≤ depth' →
      (fs.listing scan project depth).paths =
        (fs.listing scan project depth').paths.filter
          fun path => decide ((segments path).length ≤ depth + 1)) ∧
    ∀ rules, fs.ignoreRules project = .ok rules → scan.ignored = ignores rules → ∀ depth,
      fs.scan project depth scan.skipped = .ok (fs.listing scan project depth) := by
  refine ⟨fun depth => ⟨fun path => mem_listing_iff hproper, pairwise_listing hproper scan project
    depth, nodup_firstPerKey_id _⟩, ?_, ?_⟩
  · intro depth depth' hle
    -- Both sides are in the order of the segments, and list the same paths.
    have hirrefl : Std.Irrefl fun a b : String => segments a < segments b :=
      ⟨fun a => List.lt_irrefl (segments a)⟩
    have hantisymm : Std.Antisymm fun a b : String => segments a < segments b :=
      ⟨fun a b hab hba => absurd hba (List.lt_asymm hab)⟩
    have hpairwise := pairwise_listing hproper scan project
    refine (hpairwise depth).eq_of_mem_iff ((hpairwise depth').filter _) fun path => ?_
    rw [List.mem_filter, mem_listing_iff hproper, mem_listing_iff hproper, decide_eq_true_iff]
    exact listed_of_le hle
  · intro rules hrules hignored depth
    refine map_eq_ok_iff.mpr ⟨rules, hrules, ?_⟩
    rw [← hignored]

/-- A project in which `src/again` leads back to `src`, and whose ignore file names `dist`. -/
def looping : FileSystem where
  entries := [(["app"], .directory), (["app", ".gitignore"], .file (.text "dist\n".toList)),
    (["app", "dist"], .directory), (["app", "dist", "a.js"], .file (.text [])),
    (["app", "src"], .directory), (["app", "src", "a.ts"], .file (.text [])),
    (["app", "src", "again"], .link ".")]

/-- The link is followed as far as the depth allows, and what is ignored is left out. -/
theorem scan_paths_looping :
    looping.Proper ∧ ∃ rules, looping.ignoreRules ["app"] = .ok rules ∧
      ∃ tree, looping.scan ["app"] 2 [] = .ok tree ∧ "src/again/a.ts" ∈ tree.paths ∧
        "src/again/again/a.ts" ∉ tree.paths ∧ "dist/a.js" ∉ tree.paths := by
  have hproper : looping.Proper := by decide +kernel
  obtain ⟨rules, hrules⟩ : ∃ rules, (looping.ignoreRules ["app"]).toOption = some rules :=
    Option.isSome_iff_exists.mp (by decide +kernel)
  have hsome := eq_ok_of_toOption_eq_some hrules
  have hget : rules = ((looping.ignoreRules ["app"]).toOption).getD [] := by rw [hrules]; rfl
  obtain ⟨hlisting, -, htree⟩ := scan_paths hproper ⟨[], ignores rules⟩ ["app"]
  obtain ⟨hlisted, -⟩ := hlisting 2
  have hok := htree rules hsome rfl 2
  refine ⟨hproper, rules, hsome, _, hok, ?_, ?_, ?_⟩ <;> rw [hlisted, hget] <;> decide +kernel

end PlanAudit
