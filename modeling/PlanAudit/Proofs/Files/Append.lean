import Mathlib.Data.List.Basic
import PlanAudit.Files.System

/-!
# What adding to a file changes

A text that is added to a file is there afterwards: the file holds more than before, or there is a
file where nothing was.  On the way directories may be made, which takes no file away and adds none.

## Main results

* `storedAt?_store_self`, `storedAt?_store_of_ne`: what is stored after a change
* `DirectoriesAdded`: what making directories leaves alone
* `append?_ne`: a file system to which a text was added is another one
* `append?_empty`: a text can be added where nothing is stored
-/

namespace PlanAudit

/-- A content to which a text was added is another one. -/
theorem Content.append_ne (c : Content) {more : List Char} (h : more ≠ []) : c.append more ≠ c := by
  cases c with
  | text chars =>
    intro heq
    exact h (List.append_right_eq_self.mp (Content.text.inj heq))
  | binary bytes =>
    intro heq
    rw [Content.append, Content.ofBytes] at heq
    split at heq
    · cases heq
    · have hnil := List.append_right_eq_self.mp (Content.binary.inj heq)
      obtain ⟨x, rest, rfl⟩ := List.exists_cons_of_ne_nil h
      rw [Text.utf8Bytes, List.flatMap_cons] at hnil
      exact String.utf8EncodeChar_ne_nil (List.append_eq_nil_iff.mp hnil).1

namespace FileSystem

variable {fs : FileSystem} {p q : Path} {e : Entry}

/-! ## Storing an entry -/

theorem storedAt?_of_ne_nil (h : p ≠ []) : fs.storedAt? p = fs.entries.lookup p := by
  rw [storedAt?, if_neg]
  simpa using h

theorem any_eq_false_iff : (fs.entries.any (·.1 == p)) = false ↔ fs.entries.lookup p = none := by
  rw [List.lookup_eq_none_iff, List.any_eq_false]
  refine forall₂_congr fun x _ => ?_
  rw [beq_iff_eq, bne_iff_ne, ne_comm]

theorem length_le_store (fs : FileSystem) (p : Path) (e : Entry) :
    fs.entries.length ≤ (fs.store p e).entries.length := by
  unfold store
  split <;> simp

theorem length_store_of_none (h : fs.storedAt? p = none) :
    (fs.store p e).entries.length = fs.entries.length + 1 := by
  have hne : p ≠ [] := by
    rintro rfl
    cases h
  rw [storedAt?_of_ne_nil hne] at h
  rw [store, any_eq_false_iff.mpr h]
  simp

theorem lookup_replaced (l : List (Path × Entry)) (p q : Path) (e : Entry) :
    (l.map fun x => if x.1 == p then (p, e) else x).lookup q =
      if q = p then (l.lookup q).map fun _ => e else l.lookup q := by
  induction l with
  | nil => simp
  | cons x rest ih =>
    obtain ⟨n, a⟩ := x
    by_cases hn : n = p
    · subst hn
      by_cases hq : q = n
      · subst hq
        simp
      · have hb : (q == n) = false := by simpa using hq
        simp only [List.map_cons, beq_self_eq_true, if_true, List.lookup_cons, hb, ih, if_neg hq]
    · have hnb : (n == p) = false := by simpa using hn
      by_cases hq : q = n
      · subst hq
        simp [hn]
      · have hb : (q == n) = false := by simpa using hq
        simp only [List.map_cons, hnb, List.lookup_cons, hb, ih, Bool.false_eq_true, if_false]

theorem lookup_append_single (l : List (Path × Entry)) (h : l.lookup p = none) :
    (l ++ [(p, e)]).lookup q = if q = p then some e else l.lookup q := by
  rw [List.lookup_append]
  by_cases hq : q = p
  · subst hq
    simp [h]
  · have hb : (q == p) = false := by simpa using hq
    simp [List.lookup_cons, hb, hq]

/-- What is found after an entry is stored. -/
theorem storedAt?_store (hp : p ≠ []) :
    (fs.store p e).storedAt? q = if q = p then some e else fs.storedAt? q := by
  -- Under the empty path stands the root, whatever is stored.
  by_cases hq : q = []
  · have hne : q ≠ p := by
      rintro rfl
      exact hp hq
    rw [if_neg hne, hq]
    rfl
  · rw [storedAt?_of_ne_nil hq, storedAt?_of_ne_nil hq, store]
    split
    · rename_i hany
      rw [lookup_replaced]
      by_cases hqp : q = p
      · subst hqp
        have hsome : fs.entries.lookup q ≠ none := fun hnone => by
          rw [any_eq_false_iff.mpr hnone] at hany
          cases hany
        obtain ⟨old, hold⟩ := Option.ne_none_iff_exists'.mp hsome
        rw [if_pos rfl, if_pos rfl, hold]
        rfl
      · rw [if_neg hqp, if_neg hqp]
    · rename_i hany
      exact lookup_append_single _ (any_eq_false_iff.mp (Bool.eq_false_iff.mpr hany))

theorem storedAt?_store_self (hp : p ≠ []) : (fs.store p e).storedAt? p = some e := by
  rw [storedAt?_store hp, if_pos rfl]

theorem storedAt?_store_of_ne (hp : p ≠ []) (h : q ≠ p) :
    (fs.store p e).storedAt? q = fs.storedAt? q := by
  rw [storedAt?_store hp, if_neg h]

/-! ## Making directories -/

/-- The second file system differs from the first by directories that were added, possibly in the
place of a link. -/
structure DirectoriesAdded (fs fs' : FileSystem) : Prop where
  /-- No entry is lost. -/
  length_le : fs.entries.length ≤ fs'.entries.length
  /-- Every file was there before. -/
  file_of : ∀ q c, fs'.storedAt? q = some (.file c) → fs.storedAt? q = some (.file c)

namespace DirectoriesAdded

theorem refl (fs : FileSystem) : DirectoriesAdded fs fs := ⟨Nat.le_refl _, fun _ _ h => h⟩

theorem trans {fs fs' fs'' : FileSystem} (h : DirectoriesAdded fs fs')
    (h' : DirectoriesAdded fs' fs'') : DirectoriesAdded fs fs'' :=
  ⟨Nat.le_trans h.length_le h'.length_le, fun q c hq => h.file_of q c (h'.file_of q c hq)⟩

theorem store (hp : p ≠ []) : DirectoriesAdded fs (fs.store p .directory) where
  length_le := length_le_store fs p .directory
  file_of q c h := by
    by_cases hq : q = p
    · subst hq
      rw [storedAt?_store_self hp] at h
      cases h
    · rwa [storedAt?_store_of_ne hp hq] at h

end DirectoriesAdded

theorem directoriesAdded_of_makeDirectories? {fs' : FileSystem} {directory : Path}
    (h : fs.makeDirectories? p = some (fs', directory)) : DirectoriesAdded fs fs' := by
  have hall : ∀ s ∈ fs.makeDirectories? p, DirectoriesAdded fs s.1 := by
    unfold makeDirectories?
    -- One segment after another: what is made so far is what the rest starts from.
    refine List.foldlRecOn p _ (motive := fun made : Option (FileSystem × Path) =>
      ∀ s ∈ made, DirectoriesAdded fs s.1) ?_ ?_
    · intro s hs
      obtain rfl := Option.mem_some.mp hs
      exact DirectoriesAdded.refl fs
    · intro made hmade segment _ s hs
      obtain ⟨⟨before, base⟩, hbefore, hs⟩ := Option.bind_eq_some_iff.mp hs
      have hadded := hmade (before, base) hbefore
      simp only at hs
      split at hs
      · split at hs
        · obtain rfl := Option.some.inj hs
          exact hadded
        · cases hs
      · split at hs
        · obtain rfl := Option.some.inj hs
          exact hadded.trans (DirectoriesAdded.store (by simp))
        · cases hs
  exact hall (fs', directory) h

/-! ## Adding a text -/

/-- Where a file is made, there is one entry more. -/
theorem length_of_create? {fs' : FileSystem} {content : Content}
    (h : fs.create? p content = some fs') : fs'.entries.length = fs.entries.length + 1 := by
  unfold create? at h
  simp only at h
  split at h
  · rename_i hfree
    obtain rfl := Option.some.inj h
    exact length_store_of_none hfree.1
  · cases h

/-- **A file system to which a text was added is another one.** -/
theorem append?_ne {fs' : FileSystem} {more : List Char} (hmore : more ≠ [])
    (h : fs.append? p more = some fs') : fs' ≠ fs := by
  obtain ⟨⟨made, directory⟩, hmade, happend⟩ := Option.bind_eq_some_iff.mp h
  have hadded := directoriesAdded_of_makeDirectories? hmade
  simp only at happend
  split at happend
  · -- A file was made, so that there is one entry more than before the directories.
    rintro rfl
    have hlength := length_of_create? happend
    have := hadded.length_le
    omega
  · -- A file was there, and it was there before the directories: now it holds more.
    split at happend
    · rename_i found _ _ content hfile
      obtain rfl := Option.some.inj happend
      intro heq
      have hne : found ≠ [] := by
        rintro rfl
        cases hfile
      have hold := hadded.file_of found content hfile
      have hnew : (made.store found (.file (content.append more))).storedAt? found =
          some (.file (content.append more)) := storedAt?_store_self hne
      rw [heq, hold] at hnew
      obtain hcontent := Entry.file.inj (Option.some.inj hnew)
      exact Content.append_ne content hmore hcontent.symm
    · cases happend

/-- In a file system that holds nothing, a text is added to a file of its own. -/
theorem append?_empty {name : String} (hname : name ≠ "..") (more : List Char) :
    empty.append? [name] more = some ⟨[([name], .file (.text more))]⟩ := by
  have hmade : empty.makeDirectories? (Path.parent [name]) = some (empty, []) := rfl
  have hplace : [] ++ [Path.fileName [name]] = [name] := rfl
  have hfree : empty.storedAt? [name] = none := rfl
  -- Nothing is stored under the name, so that it leads nowhere and stands for itself.
  have hlocate : empty.locate? [name] = none := by
    simp [locate?, locateWithin, maxLinks, walk, hname, hfree]
  have hreal : empty.realPath [name] = [name] := by
    simp [realPath, resolveWithin, maxLinks, walk, hname, hfree]
  unfold append?
  rw [hmade, Option.bind_some]
  simp only [hplace, hlocate]
  unfold create?
  rw [hreal]
  exact if_pos ⟨hfree, rfl⟩

end FileSystem

end PlanAudit
