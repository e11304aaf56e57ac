import Mathlib.Data.List.Perm.Subperm
import PlanAudit.Catalog
import PlanAudit.Proofs.Text.FirstPerKey

/-!
# Catalogs that are filled from a list

## Main results

* `Catalog.find?_eq_some_iff`: what is found is what is listed
* `Catalog.entries_ofList`: a list of pairs with distinct names is taken over as it is
* `Catalog.entries_ofList_of_length_le`: so is a list of pairs of which none is lost
* `Catalog.find?_ofList_of_perm`: such pairs may be entered in any order
* `Catalog.mem_names_ofList`, `Catalog.find?_ofList`: the names of a catalog are those of the pairs
  it is made of, and the last pair with a name counts
* `Catalog.map_ofList`: the values may be changed before they are entered
* `Catalog.names_foldl_push`, `Catalog.find?_foldl_push`: a catalog of lists has under every name
  what was entered under it, in order
-/

namespace PlanAudit.Catalog

open Text

variable {α : Type}

/-! ## What is listed is found -/

/-- What is found under a name is what is listed under it. -/
theorem find?_eq_some_iff {c : Catalog α} {name : String} {a : α} :
    c.find? name = some a ↔ (name, a) ∈ c.entries := by
  obtain ⟨pairs, h⟩ := c
  simp only [find?]
  induction pairs with
  | nil => simp
  | cons p rest ih =>
    obtain ⟨n, b⟩ := p
    obtain ⟨hfresh, hrest⟩ := List.nodup_cons.mp h
    by_cases hn : name = n
    · subst hn
      -- The name is not listed again in the rest.
      have hnot : (name, a) ∉ rest := fun hmem => hfresh (List.mem_map.mpr ⟨_, hmem, rfl⟩)
      simp [hnot, eq_comm]
    · have hb : (name == n) = false := by simpa using hn
      simp [List.lookup_cons, hb, hn, ih hrest]

theorem contains_alter {c : Catalog α} {name other : String} {f : Option α → α} :
    (c.alter name f).contains other = true ↔ c.contains other = true ∨ other = name := by
  rw [← mem_names_iff, ← mem_names_iff, names_alter]
  split
  · rename_i hmem
    exact ⟨Or.inl, fun h => h.elim id fun hname => hname ▸ hmem⟩
  · rw [List.mem_append, List.mem_singleton]

/-! ## Pairs with distinct names -/

theorem alterPairs_of_not_mem {name : String} {f : Option α → α} {pairs : List (String × α)}
    (h : name ∉ pairs.map Prod.fst) : alterPairs name f pairs = pairs ++ [(name, f none)] := by
  induction pairs with
  | nil => rfl
  | cons p rest ih =>
    obtain ⟨n, a⟩ := p
    rw [List.map_cons, List.mem_cons, not_or] at h
    rw [alterPairs, if_neg (Ne.symm h.1), ih h.2, List.cons_append]

theorem entries_foldl_insert {pairs : List (String × α)} {c : Catalog α}
    (h : (c.entries.map Prod.fst ++ pairs.map Prod.fst).Nodup) :
    (pairs.foldl (fun c p => c.insert p.1 p.2) c).entries = c.entries ++ pairs := by
  induction pairs generalizing c with
  | nil => exact (List.append_nil _).symm
  | cons p rest ih =>
    -- Neither the catalog nor the rest has the name, so the pair goes to the end.
    have hfresh : p.1 ∉ c.entries.map Prod.fst := fun hmem =>
      (List.nodup_append.mp h).2.2 p.1 hmem p.1 (List.mem_map_of_mem List.mem_cons_self) rfl
    have hentries : (c.insert p.1 p.2).entries = c.entries ++ [p] := alterPairs_of_not_mem hfresh
    have hnodup : ((c.insert p.1 p.2).entries.map Prod.fst ++ rest.map Prod.fst).Nodup := by
      rw [hentries, List.map_append, List.append_assoc]
      exact h
    rw [List.foldl_cons, ih hnodup, hentries, List.append_assoc]
    rfl

/-- A list of pairs with distinct names is taken over as it is. -/
theorem entries_ofList {pairs : List (String × α)} (h : (pairs.map Prod.fst).Nodup) :
    (ofList pairs).entries = pairs :=
  entries_foldl_insert (c := empty) h

/-- Pairs with distinct names may be entered in any order. -/
theorem find?_ofList_of_perm {pairs others : List (String × α)} (h : (pairs.map Prod.fst).Nodup)
    (hperm : others.Perm pairs) (name : String) :
    (ofList others).find? name = (ofList pairs).find? name := by
  have hothers : (others.map Prod.fst).Nodup := (hperm.map Prod.fst).nodup_iff.mpr h
  refine Option.ext fun a => ?_
  rw [find?_eq_some_iff, find?_eq_some_iff, entries_ofList h, entries_ofList hothers]
  exact hperm.mem_iff

/-! ## Any pairs -/

theorem mem_names_foldl_insert {pairs : List (String × α)} {c : Catalog α} {name : String} :
    name ∈ (pairs.foldl (fun c p => c.insert p.1 p.2) c).names ↔
      name ∈ c.names ∨ name ∈ pairs.map Prod.fst := by
  induction pairs generalizing c with
  | nil => simp
  | cons p rest ih =>
    have hone : name ∈ (c.insert p.1 p.2).names ↔ name ∈ c.names ∨ name = p.1 := by
      rw [mem_names_iff, mem_names_iff]
      exact contains_alter
    rw [List.foldl_cons, ih, hone, List.map_cons, List.mem_cons, or_assoc]

/-- The names of a catalog are those of the pairs it is made of. -/
theorem mem_names_ofList {pairs : List (String × α)} {name : String} :
    name ∈ (ofList pairs).names ↔ name ∈ pairs.map Prod.fst := by
  rw [ofList, mem_names_foldl_insert, names_empty]
  exact or_iff_right List.not_mem_nil

theorem subperm_names_ofList (pairs : List (String × α)) :
    (ofList pairs).names.Subperm (pairs.map Prod.fst) :=
  List.subperm_of_subset (ofList pairs).nodup fun _ hname => mem_names_ofList.mp hname

/-- Pairs of which none is lost have distinct names. -/
theorem entries_ofList_of_length_le {pairs : List (String × α)}
    (h : pairs.length ≤ (ofList pairs).entries.length) : (ofList pairs).entries = pairs := by
  have hperm := (subperm_names_ofList pairs).perm_of_length_le
    (by rwa [names, List.length_map, List.length_map])
  exact entries_ofList (hperm.nodup_iff.mp (ofList pairs).nodup)

theorem find?_foldl_insert (pairs : List (String × α)) (c : Catalog α) (name : String) :
    (pairs.foldl (fun c p => c.insert p.1 p.2) c).find? name =
      ((pairs.filter fun p => p.1 = name).getLast?.map Prod.snd).or (c.find? name) := by
  induction pairs generalizing c with
  | nil => rfl
  | cons p rest ih =>
    rw [List.foldl_cons, ih]
    by_cases hname : p.1 = name
    · -- The first pair counts unless a later one has the name as well.
      rw [List.filter_cons_of_pos (by simpa using hname), List.getLast?_cons, hname,
        find?_insert_self]
      cases (rest.filter fun p => p.1 = name).getLast? <;> rfl
    · rw [List.filter_cons_of_neg (by simpa using hname),
        find?_insert_of_ne c (fun h => hname h.symm)]

/-- Of several new pairs with a name the first counts, unless the name was there before. -/
theorem find?_foldl_insertNew (pairs : List (String × α)) (c : Catalog α) (name : String) :
    (pairs.foldl (fun c p => c.insertNew p.1 p.2) c).find? name =
      (c.find? name).or ((pairs.find? fun p => p.1 = name).map Prod.snd) := by
  induction pairs generalizing c with
  | nil => exact (Option.or_none).symm
  | cons p rest ih =>
    rw [List.foldl_cons, ih, insertNew]
    by_cases hname : p.1 = name
    · -- The first pair fills the name, so that no later one does.
      rw [List.find?_cons_of_pos (by simpa using hname), hname, find?_alter_self]
      cases c.find? name <;> rfl
    · rw [List.find?_cons_of_neg (by simpa using hname),
        find?_alter_of_ne c (fun h => hname h.symm)]

/-- Of several pairs with a name the last counts. -/
theorem find?_ofList (pairs : List (String × α)) (name : String) :
    (ofList pairs).find? name = (pairs.filter fun p => p.1 = name).getLast?.map Prod.snd := by
  rw [ofList, find?_foldl_insert, find?_empty, Option.or_none]

/-- What is found is one of the pairs that the catalog is made of. -/
theorem mem_of_find?_ofList {pairs : List (String × α)} {name : String} {a : α}
    (h : (ofList pairs).find? name = some a) : (name, a) ∈ pairs := by
  rw [find?_ofList] at h
  obtain ⟨p, hp, rfl⟩ := Option.map_eq_some_iff.mp h
  obtain ⟨hmem, hname⟩ := List.mem_filter.mp (List.mem_of_getLast? hp)
  rwa [← of_decide_eq_true hname]

/-! ## Values that are changed -/

section Map

variable {β : Type} (g : α → β)

theorem map_insert (c : Catalog α) (name : String) (a : α) :
    (c.insert name a).map g = (c.map g).insert name (g a) := by
  refine ext ?_
  show (alterPairs name (fun _ => a) c.entries).map (fun p => (p.1, g p.2)) =
    alterPairs name (fun _ => g a) (c.entries.map fun p => (p.1, g p.2))
  induction c.entries with
  | nil => rfl
  | cons p rest ih =>
    obtain ⟨n, b⟩ := p
    by_cases hn : n = name
    · simp [alterPairs, hn]
    · simpa [alterPairs, hn] using ih

theorem map_foldl_insert (pairs : List (String × α)) (c : Catalog α) :
    (pairs.foldl (fun c p => c.insert p.1 p.2) c).map g =
      (pairs.map fun p => (p.1, g p.2)).foldl (fun c p => c.insert p.1 p.2) (c.map g) := by
  induction pairs generalizing c with
  | nil => rfl
  | cons p rest ih => rw [List.foldl_cons, ih, map_insert, List.map_cons, List.foldl_cons]

/-- The values may be changed before they are entered. -/
theorem map_ofList (pairs : List (String × α)) :
    (ofList pairs).map g = ofList (pairs.map fun p => (p.1, g p.2)) :=
  map_foldl_insert g pairs empty

end Map

/-! ## Lists by name -/

section Push

variable (key : α → String)

theorem names_foldl_push (as : List α) (c : Catalog (List α)) :
    (as.foldl (fun c a => c.push (key a) a) c).names =
      c.names ++ (firstPerKey id (as.map key)).filter fun n => !c.names.contains n := by
  induction as generalizing c with
  | nil => exact (List.append_nil _).symm
  | cons a rest ih =>
    -- The first element brings its name unless it is there; the rest brings no name twice.
    rw [List.foldl_cons, ih, push, names_alter, List.map_cons, firstPerKey, List.filter_cons,
      List.filter_filter]
    by_cases hmem : key a ∈ c.names
    · have hrest : ∀ n, (!c.names.contains n && !(id n == id (key a))) = !c.names.contains n := by
        intro n
        by_cases hn : n = key a
        · simp [hn, hmem]
        · simp [hn]
      rw [if_pos hmem, if_neg (by simpa using hmem)]
      exact congrArg _ (List.filter_congr fun n _ => (hrest n).symm)
    · rw [if_neg hmem, if_pos (by simpa using hmem), List.append_assoc, List.singleton_append]
      refine congrArg (fun l => c.names ++ key a :: l) (List.filter_congr fun n _ => ?_)
      by_cases hn : n = key a <;> simp [hn]

/-- The names of an empty catalog that was filled are those entered, each once. -/
theorem names_foldl_push_empty (as : List α) :
    (as.foldl (fun c a => c.push (key a) a) (empty : Catalog (List α))).names =
      firstPerKey id (as.map key) := by
  rw [names_foldl_push, names_empty, List.nil_append]
  exact List.filter_eq_self.mpr fun _ _ => rfl

theorem find?_foldl_push (as : List α) (c : Catalog (List α)) (n : String) :
    (as.foldl (fun c a => c.push (key a) a) c).find? n =
      if n ∈ as.map key then some ((c.find? n).getD [] ++ as.filter fun a => key a = n)
      else c.find? n := by
  induction as generalizing c with
  | nil => simp
  | cons a rest ih =>
    rw [List.foldl_cons, ih, push]
    by_cases hn : n = key a
    · -- The first element stands before all others that are entered under its name.
      subst hn
      have hin : key a ∈ (a :: rest).map key := List.mem_map_of_mem List.mem_cons_self
      rw [find?_alter_self, List.filter_cons_of_pos (by simp), if_pos hin]
      split
      · rw [Option.getD_some, List.append_assoc, List.singleton_append]
      · rename_i hrest
        have hnone : rest.filter (fun b => key b = key a) = [] := by
          rw [List.filter_eq_nil_iff]
          intro b hb hkey
          exact hrest (List.mem_map.mpr ⟨b, hb, by simpa using hkey⟩)
        rw [hnone]
    · have hne : ¬ key a = n := fun h => hn h.symm
      rw [find?_alter_of_ne c hn, List.filter_cons_of_neg (by simpa using hne)]
      simp [hn]

/-- Under every name stands what was entered under it, in order. -/
theorem find?_foldl_push_empty (as : List α) (n : String) :
    (as.foldl (fun c a => c.push (key a) a) (empty : Catalog (List α))).find? n =
      if n ∈ as.map key then some (as.filter fun a => key a = n) else none := by
  rw [find?_foldl_push, find?_empty]
  rfl

end Push

end PlanAudit.Catalog
