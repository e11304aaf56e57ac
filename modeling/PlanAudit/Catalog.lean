/-!
# Catalogs

A catalog lists values under distinct names, in the order in which the names were first entered.
Every index of a project is one: what is scanned first is listed and suggested first.

## Main definitions

* `Catalog`: the entries, with no name twice
* `Catalog.find?`, `Catalog.contains`: look-up
* `Catalog.alter`: the change from which `insert`, `insertNew` and `push` are made
* `Catalog.ofList`: the catalog of a list of pairs

## Main results

* `Catalog.names_alter`: a change enters at most one new name, at the end
* `Catalog.find?_alter_self`, `Catalog.find?_alter_of_ne`: what a change does to look-up
-/

namespace PlanAudit

/-- Values under distinct names, in order of first entry. -/
structure Catalog (α : Type) where
  /-- The names with their values. -/
  entries : List (String × α)
  /-- No name is listed twice. -/
  nodup : (entries.map Prod.fst).Nodup

namespace Catalog

variable {α β : Type}

/-! ## Look-up -/

/-- The names in order. -/
def names (c : Catalog α) : List String := c.entries.map Prod.fst

/-- The values in order of their names. -/
def values (c : Catalog α) : List α := c.entries.map Prod.snd

/-- The number of names. -/
def size (c : Catalog α) : Nat := c.entries.length

/-- Whether nothing is listed. -/
def isEmpty (c : Catalog α) : Bool := c.entries.isEmpty

/-- The value under a name. -/
def find? (c : Catalog α) (name : String) : Option α := c.entries.lookup name

/-- Whether the name is listed. -/
def contains (c : Catalog α) (name : String) : Bool := (c.find? name).isSome

/-! ## Change -/

/-- The pairs with the value under `name` changed by `f`; a new name goes to the end. -/
def alterPairs (name : String) (f : Option α → α) : List (String × α) → List (String × α)
  | [] => [(name, f none)]
  | (n, a) :: rest => if n = name then (n, f (some a)) :: rest else (n, a) :: alterPairs name f rest

theorem map_fst_alterPairs (name : String) (f : Option α → α) (pairs : List (String × α)) :
    (alterPairs name f pairs).map Prod.fst =
      if name ∈ pairs.map Prod.fst then pairs.map Prod.fst
      else pairs.map Prod.fst ++ [name] := by
  induction pairs with
  | nil => simp [alterPairs]
  | cons p rest ih =>
    obtain ⟨n, a⟩ := p
    by_cases hn : n = name
    · simp [alterPairs, hn]
    · have hn' : name ≠ n := fun h => hn h.symm
      simp only [alterPairs, hn, if_false, List.map_cons, ih, List.mem_cons, hn', false_or]
      split <;> simp

/-- The empty catalog. -/
def empty : Catalog α := ⟨[], List.nodup_nil⟩

/-- The catalog with the value under `name` changed by `f`, which gets the old value if there is
one; a new name goes to the end. -/
def alter (c : Catalog α) (name : String) (f : Option α → α) : Catalog α where
  entries := alterPairs name f c.entries
  nodup := by
    rw [map_fst_alterPairs]
    split
    · exact c.nodup
    · rename_i h
      refine List.nodup_append.2 ⟨c.nodup, by simp, ?_⟩
      intro a ha b hb
      rw [List.mem_singleton] at hb
      rintro rfl
      exact h (hb ▸ ha)

/-- The catalog with `value` under `name`; an old value gives way and keeps its place. -/
def insert (c : Catalog α) (name : String) (value : α) : Catalog α := c.alter name fun _ => value

/-- The catalog with `value` under `name`, unless the name is already listed. -/
def insertNew (c : Catalog α) (name : String) (value : α) : Catalog α :=
  c.alter name (·.getD value)

/-- The catalog of lists with `value` added at the end of the list under `name`. -/
def push (c : Catalog (List α)) (name : String) (value : α) : Catalog (List α) :=
  c.alter name fun old => old.getD [] ++ [value]

/-- The catalog of the pairs: each name stands where it is first listed, with its last value. -/
def ofList (pairs : List (String × α)) : Catalog α :=
  pairs.foldl (fun c p => c.insert p.1 p.2) empty

/-- The catalog with every value changed by `f`. -/
def map (f : α → β) (c : Catalog α) : Catalog β where
  entries := c.entries.map fun p => (p.1, f p.2)
  nodup := by
    have : (c.entries.map fun p => (p.1, f p.2)).map Prod.fst = c.entries.map Prod.fst := by
      simp
    rw [this]
    exact c.nodup

instance : EmptyCollection (Catalog α) := ⟨empty⟩

instance : Inhabited (Catalog α) := ⟨empty⟩

/-- Catalogs with the same entries are equal. -/
theorem ext {c d : Catalog α} (h : c.entries = d.entries) : c = d := by
  cases c
  cases d
  simp only at h
  subst h
  rfl

instance [DecidableEq α] : DecidableEq (Catalog α) := fun c d =>
  if h : c.entries = d.entries then isTrue (ext h) else isFalse fun e => h (e ▸ rfl)

/-! ## Laws -/

@[simp] theorem names_empty : (empty : Catalog α).names = [] := rfl

@[simp] theorem find?_empty (name : String) : (empty : Catalog α).find? name = none := rfl

/-- A change enters at most one new name, and that at the end. -/
theorem names_alter (c : Catalog α) (name : String) (f : Option α → α) :
    (c.alter name f).names = if name ∈ c.names then c.names else c.names ++ [name] :=
  map_fst_alterPairs name f c.entries

theorem lookup_alterPairs_self (name : String) (f : Option α → α) (pairs : List (String × α)) :
    (alterPairs name f pairs).lookup name = some (f (pairs.lookup name)) := by
  induction pairs with
  | nil => simp [alterPairs]
  | cons p rest ih =>
    obtain ⟨n, a⟩ := p
    by_cases hn : n = name
    · subst hn
      simp [alterPairs]
    · have hb : (name == n) = false := by simpa using fun h : name = n => hn h.symm
      simp [alterPairs, hn, List.lookup_cons, hb, ih]

theorem lookup_alterPairs_of_ne {name other : String} (h : other ≠ name) (f : Option α → α)
    (pairs : List (String × α)) :
    (alterPairs name f pairs).lookup other = pairs.lookup other := by
  induction pairs with
  | nil =>
    have hb : (other == name) = false := by simpa using h
    simp [alterPairs, List.lookup_cons, hb]
  | cons p rest ih =>
    obtain ⟨n, a⟩ := p
    by_cases hn : n = name
    · subst hn
      have hb : (other == n) = false := by simpa using h
      simp [alterPairs, List.lookup_cons, hb]
    · by_cases ho : other = n
      · subst ho
        simp [alterPairs, hn]
      · have hb : (other == n) = false := by simpa using ho
        simp [alterPairs, hn, List.lookup_cons, hb, ih]

/-- After a change the changed value is found. -/
@[simp] theorem find?_alter_self (c : Catalog α) (name : String) (f : Option α → α) :
    (c.alter name f).find? name = some (f (c.find? name)) :=
  lookup_alterPairs_self name f c.entries

/-- A change under one name leaves the others alone. -/
theorem find?_alter_of_ne (c : Catalog α) {name other : String} (h : other ≠ name)
    (f : Option α → α) : (c.alter name f).find? other = c.find? other :=
  lookup_alterPairs_of_ne h f c.entries

@[simp] theorem find?_insert_self (c : Catalog α) (name : String) (value : α) :
    (c.insert name value).find? name = some value :=
  find?_alter_self c name _

theorem find?_insert_of_ne (c : Catalog α) {name other : String} (h : other ≠ name) (value : α) :
    (c.insert name value).find? other = c.find? other :=
  find?_alter_of_ne c h _

/-- A name is listed exactly if something is found under it. -/
theorem mem_names_iff (c : Catalog α) (name : String) :
    name ∈ c.names ↔ c.contains name = true := by
  obtain ⟨pairs, h⟩ := c
  simp only [names, contains, find?]
  clear h
  induction pairs with
  | nil => simp
  | cons p rest ih =>
    obtain ⟨n, a⟩ := p
    by_cases hn : name = n
    · subst hn
      simp
    · have hb : (name == n) = false := by simpa using hn
      simp [List.lookup_cons, hb, hn, ih]

end Catalog

end PlanAudit
