import PlanAudit.Proofs.Catalog
import PlanAudit.Sql.Discovery

/-!
# The definition of a table that counts

A scan meets the definitions of tables file by file, and a table can be defined several times and in
two forms.  A builder replaces what was defined under the name before, a statement only fills a name
that no builder has taken, whenever the scan meets it.  So the last builder counts, or else the
first statement, and what a variable is bound to is a table of a builder.  Neither rule looks across
the forms: how the files of one form stand among those of the other does not matter.

## Main definitions

* `scanned`: the definitions in the files of a project, in the order of the scan
* `lastBuilt?`, `firstStated?`, `lastBinding?`: the definition that counts, for each form of a table
  and for a variable
* `Schema.Reflects`: the schema has for each name and each variable the definition that counts

## Main results

* `reflects_ofFiles`: the schema of a list of files has the definitions that count
* `reflects_ofProject`: so has the schema of a project, and the order of the files matters only
  among those of one form
-/

namespace PlanAudit.Sql

open Text

/-! ## Definitions in the order of the scan -/

/-- The definitions in the files, in their order. -/
def definitions (files : List (String × List Char)) : List Table :=
  files.flatMap fun file => builtIn file ++ statedIn file

/-- The definitions in the files of the project, in the order in which the tree lists these. -/
def scanned (p : Project) (tree : FileTree) : List Table := definitions (p.texts tree.paths)

section Counting

variable (defs : List Table)

/-- The last definition of a table of the name by a builder. -/
def lastBuilt? (name : String) : Option Table :=
  (defs.filter fun t => t.source = .builder ∧ t.name = name).getLast?

/-- The first definition of a table of the name by a statement. -/
def firstStated? (name : String) : Option Table :=
  defs.find? fun t => t.source = .statement ∧ t.name = name

/-- The last definition that binds the variable. -/
def lastBinding? (variableName : String) : Option Table :=
  (defs.filter fun t => t.variableName = some variableName).getLast?

end Counting

/-- The schema has for each name and each variable the definition that counts. -/
structure Schema.Reflects (s : Schema) (defs : List Table) : Prop where
  /-- Under a name stands the last builder, or else the first statement. -/
  table : ∀ name, s.tables.find? name = (lastBuilt? defs name).or (firstStated? defs name)
  /-- A variable is bound to the name of its last definition. -/
  binding : ∀ v, s.tableOf.find? v = (lastBinding? defs v).map (·.name)
  /-- Under that name stands a table of a builder. -/
  bound : ∀ v name, s.tableOf.find? v = some name →
    ∃ t, s.tables.find? name = some t ∧ t.source = .builder
  /-- What is found are the tables by their names and by the recorded variables. -/
  resolves : ∀ name, (s.resolve? name).isSome = true ↔
    name ∈ s.tables.names ∨ name ∈ s.tableOf.names

/-! ## The two forms -/

section Forms

variable {file : String × List Char} {t : Table}

theorem of_mem_builtIn (h : t ∈ builtIn file) :
    t.source = .builder ∧ ∃ v, t.variableName = some v := by
  unfold builtIn at h
  split at h
  · obtain ⟨m, -, rfl⟩ := List.mem_map.mp h
    exact ⟨rfl, _, rfl⟩
  · cases h

theorem of_mem_statedIn (h : t ∈ statedIn file) :
    t.source = .statement ∧ t.variableName = none := by
  unfold statedIn at h
  split at h
  · obtain ⟨m, -, rfl⟩ := List.mem_map.mp h
    exact ⟨rfl, rfl⟩
  · cases h

variable {P Q : Table → Bool}

/-- What no statement satisfies picks the definitions out of those of the builders. -/
theorem filter_definitions_builtIn (hstated : ∀ file, ∀ t ∈ statedIn file, P t = false)
    (hbuilt : ∀ file, ∀ t ∈ builtIn file, P t = Q t) (files : List (String × List Char)) :
    (definitions files).filter P = (files.flatMap builtIn).filter Q := by
  unfold definitions
  rw [List.filter_flatMap, List.filter_flatMap]
  congr 1
  funext file
  have hnone : (statedIn file).filter P = [] :=
    List.filter_eq_nil_iff.mpr fun t ht => by simp [hstated file t ht]
  rw [List.filter_append, hnone, List.append_nil, List.filter_congr (hbuilt file)]

/-- What no builder satisfies picks the definitions out of those of the statements. -/
theorem filter_definitions_statedIn (hbuilt : ∀ file, ∀ t ∈ builtIn file, P t = false)
    (hstated : ∀ file, ∀ t ∈ statedIn file, P t = Q t) (files : List (String × List Char)) :
    (definitions files).filter P = (files.flatMap statedIn).filter Q := by
  unfold definitions
  rw [List.filter_flatMap, List.filter_flatMap]
  congr 1
  funext file
  have hnone : (builtIn file).filter P = [] :=
    List.filter_eq_nil_iff.mpr fun t ht => by simp [hbuilt file t ht]
  rw [List.filter_append, hnone, List.nil_append, List.filter_congr (hstated file)]

end Forms

/-! ## A schema that is filled -/

section Fill

theorem tables_foldl_addBuilt (ts : List Table) (s : Schema) :
    (ts.foldl Schema.addBuilt s).tables =
      (ts.map fun t => (t.name, t)).foldl (fun c p => c.insert p.1 p.2) s.tables := by
  induction ts generalizing s with
  | nil => rfl
  | cons t ts ih => exact ih (s.addBuilt t)

theorem tableOf_foldl_addBuilt (ts : List Table) (s : Schema) :
    (ts.foldl Schema.addBuilt s).tableOf =
      (ts.filterMap fun t => t.variableName.map (·, t.name)).foldl
        (fun c p => c.insert p.1 p.2) s.tableOf := by
  induction ts generalizing s with
  | nil => rfl
  | cons t ts ih =>
    rw [List.foldl_cons, ih, List.filterMap_cons, Schema.addBuilt]
    cases t.variableName with
    | none => rfl
    | some v => rfl

theorem tables_foldl_addStated (ts : List Table) (s : Schema) :
    (ts.foldl Schema.addStated s).tables =
      (ts.map fun t => (t.name, t)).foldl (fun c p => c.insertNew p.1 p.2) s.tables := by
  induction ts generalizing s with
  | nil => rfl
  | cons t ts ih => exact ih (s.addStated t)

/-- Statements bind no variables. -/
theorem tableOf_foldl_addStated (ts : List Table) (s : Schema) :
    (ts.foldl Schema.addStated s).tableOf = s.tableOf := by
  induction ts generalizing s with
  | nil => rfl
  | cons t ts ih => exact ih (s.addStated t)

end Fill

/-! ## The schema of a list of files -/

section Files

variable (files : List (String × List Char))

theorem find?_tables_ofFiles (name : String) :
    (Schema.ofFiles files).tables.find? name =
      (lastBuilt? (definitions files) name).or (firstStated? (definitions files) name) := by
  have hbuilt : lastBuilt? (definitions files) name =
      ((files.flatMap builtIn).filter fun t => t.name = name).getLast? := by
    refine congrArg List.getLast? (filter_definitions_builtIn ?_ ?_ files)
    · intro file t ht
      simp [(of_mem_statedIn ht).1]
    · intro file t ht
      simp [(of_mem_builtIn ht).1]
  have hstated : firstStated? (definitions files) name =
      (files.flatMap statedIn).find? fun t => t.name = name := by
    rw [firstStated?, ← List.head?_filter, ← List.head?_filter]
    refine congrArg List.head? (filter_definitions_statedIn ?_ ?_ files)
    · intro file t ht
      simp [(of_mem_builtIn ht).1]
    · intro file t ht
      simp [(of_mem_statedIn ht).1]
  rw [Schema.ofFiles, tables_foldl_addStated, Catalog.find?_foldl_insertNew, tables_foldl_addBuilt,
    Catalog.find?_foldl_insert, hbuilt, hstated, List.filter_map, List.getLast?_map, List.find?_map]
  simp [Schema.empty, Function.comp_def]

/-- What is bound to a variable is the name in its last definition. -/
theorem find?_tableOf_ofFiles (v : String) :
    (Schema.ofFiles files).tableOf.find? v =
      (lastBinding? (definitions files) v).map (·.name) := by
  have hbound : lastBinding? (definitions files) v =
      ((files.flatMap builtIn).filter fun t => t.variableName = some v).getLast? := by
    refine congrArg List.getLast? (filter_definitions_builtIn ?_ (fun _ _ _ => rfl) files)
    intro file t ht
    simp [(of_mem_statedIn ht).2]
  have hpairs : ∀ ts : List Table,
      ((ts.filterMap fun t => t.variableName.map (·, t.name)).filter fun p => p.1 = v) =
        (ts.filter fun t => t.variableName = some v).map fun t => (v, t.name) := by
    intro ts
    induction ts with
    | nil => rfl
    | cons t ts ih =>
      cases hvariable : t.variableName with
      | none => simp [hvariable, ih]
      | some w =>
        by_cases hw : w = v
        · simp [hvariable, hw, ih]
        · simp [hvariable, hw, ih]
  rw [Schema.ofFiles, tableOf_foldl_addStated, tableOf_foldl_addBuilt, Catalog.find?_foldl_insert,
    hpairs, List.getLast?_map, hbound]
  simp [Schema.empty, Function.comp_def]

/-- **The schema of a list of files** has the definitions that count. -/
theorem reflects_ofFiles : (Schema.ofFiles files).Reflects (definitions files) := by
  have hbound : ∀ v name, (Schema.ofFiles files).tableOf.find? v = some name →
      ∃ t, (Schema.ofFiles files).tables.find? name = some t ∧ t.source = .builder := by
    intro v name hv
    rw [find?_tableOf_ofFiles] at hv
    obtain ⟨t, ht, rfl⟩ := Option.map_eq_some_iff.mp hv
    obtain ⟨hmem, hvariable⟩ := List.mem_filter.mp (List.mem_of_getLast? ht)
    -- What binds a variable is a builder, so that some builder has the name.
    have hsource : t.source = .builder := by
      obtain ⟨file, -, hfile⟩ := List.mem_flatMap.mp hmem
      rcases List.mem_append.mp hfile with hbuilt | hstated
      · exact (of_mem_builtIn hbuilt).1
      · rw [(of_mem_statedIn hstated).2] at hvariable
        simp at hvariable
    have hkept : t ∈ (definitions files).filter fun u => u.source = .builder ∧ u.name = t.name :=
      List.mem_filter.mpr ⟨hmem, by simp [hsource]⟩
    obtain ⟨last, hlast⟩ : ∃ last, lastBuilt? (definitions files) t.name = some last :=
      ⟨_, List.getLast?_eq_some_getLast (List.ne_nil_of_mem hkept)⟩
    have hof := (List.mem_filter.mp (List.mem_of_getLast? hlast)).2
    refine ⟨last, by rw [find?_tables_ofFiles, hlast, Option.some_or], ?_⟩
    exact (of_decide_eq_true hof).1
  refine ⟨find?_tables_ofFiles files, find?_tableOf_ofFiles files, hbound, fun name => ?_⟩
  rw [Catalog.mem_names_iff, Catalog.mem_names_iff, Schema.resolve?, Catalog.contains,
    Catalog.contains]
  cases htable : (Schema.ofFiles files).tables.find? name with
  | some t => simp
  | none =>
    cases hvariable : (Schema.ofFiles files).tableOf.find? name with
    | none => simp
    | some other =>
      obtain ⟨t, ht, -⟩ := hbound name other hvariable
      simp [ht]

end Files

/-! ## The schema of a project -/

section Projects

variable (p : Project) {paths : List String}

/-- Files in which nothing is found may be left out. -/
theorem flatMap_texts_filter {g : String × List Char → List Table} {q : String → Bool}
    (h : ∀ path text, q path = false → g (path, text) = []) :
    (p.texts (paths.filter q)).flatMap g = (p.texts paths).flatMap g := by
  induction paths with
  | nil => rfl
  | cons path paths ih =>
    unfold Project.texts at ih ⊢
    by_cases hq : q path = true
    · rw [List.filter_cons_of_pos hq, List.filterMap_cons, List.filterMap_cons]
      cases p.readText? path with
      | none => exact ih
      | some text => exact congrArg (g (path, text) ++ ·) ih
    · rw [List.filter_cons_of_neg hq, List.filterMap_cons]
      cases p.readText? path with
      | none => exact ih
      | some text =>
        have hnone : g (path, text) = [] := h path text (by simpa using hq)
        exact ih.trans (by simp [hnone])

theorem builtIn_eq_nil {path : String} (h : isBuilderFile path = false) (text : List Char) :
    builtIn (path, text) = [] :=
  if_neg (by simp [h])

theorem statedIn_eq_nil {path : String} (h : stringEnds ".sql" path = false) (text : List Char) :
    statedIn (path, text) = [] :=
  if_neg (by simp [h])

/-- The schema of a project is that of all of its files, in the order of the tree. -/
theorem ofProject_eq_ofFiles (tree : FileTree) :
    Schema.ofProject p tree = .ofFiles (p.texts tree.paths) := by
  unfold Schema.ofProject FileTree.withExtension Schema.ofFiles
  rw [flatMap_texts_filter p, flatMap_texts_filter p]
  · intro path text hpath
    refine statedIn_eq_nil ?_ text
    simp_all
  · intro path text hpath
    refine builtIn_eq_nil ?_ text
    simp_all [isBuilderFile]

/-- The trees list the files of either form in the same order, whatever stands between them. -/
def SameWithinForms (first second : FileTree) : Prop :=
  first.paths.filter isBuilderFile = second.paths.filter isBuilderFile ∧
    first.paths.filter (stringEnds ".sql") = second.paths.filter (stringEnds ".sql")

theorem ofProject_congr {first second : FileTree} (h : SameWithinForms first second) :
    Schema.ofProject p first = Schema.ofProject p second := by
  have hbuilt : (p.texts first.paths).flatMap builtIn = (p.texts second.paths).flatMap builtIn := by
    rw [← flatMap_texts_filter p (q := isBuilderFile) fun _ text hpath => builtIn_eq_nil hpath text,
      h.1, flatMap_texts_filter p fun _ text hpath => builtIn_eq_nil hpath text]
  have hstated : (p.texts first.paths).flatMap statedIn =
      (p.texts second.paths).flatMap statedIn := by
    rw [← flatMap_texts_filter p (q := stringEnds ".sql")
        fun _ text hpath => statedIn_eq_nil hpath text,
      h.2, flatMap_texts_filter p fun _ text hpath => statedIn_eq_nil hpath text]
  rw [ofProject_eq_ofFiles, ofProject_eq_ofFiles, Schema.ofFiles, Schema.ofFiles, hbuilt, hstated]

/-- The form that counts under a name. -/
def Schema.form? (s : Schema) (name : String) : Option TableSource :=
  (s.tables.find? name).map (·.source)

/-- **Which form counts** depends on the forms in which the name is defined and on nothing else. -/
theorem Schema.Reflects.form?_eq {s : Schema} {defs : List Table} (h : s.Reflects defs)
    (name : String) :
    s.form? name =
      if ∃ t ∈ defs, t.source = .builder ∧ t.name = name then some .builder
      else if ∃ t ∈ defs, t.source = .statement ∧ t.name = name then some .statement
      else none := by
  rw [Schema.form?, h.table]
  cases hlast : lastBuilt? defs name with
  | some t =>
    obtain ⟨hmem, hof⟩ := List.mem_filter.mp (List.mem_of_getLast? hlast)
    have hof := of_decide_eq_true hof
    rw [if_pos ⟨t, hmem, hof⟩]
    exact congrArg some hof.1
  | none =>
    have hnone : ¬ ∃ t ∈ defs, t.source = .builder ∧ t.name = name := by
      rintro ⟨t, hmem, hof⟩
      have hnil := List.getLast?_eq_none_iff.mp hlast
      exact List.filter_eq_nil_iff.mp hnil t hmem (decide_eq_true hof)
    rw [if_neg hnone, Option.none_or]
    cases hfirst : firstStated? defs name with
    | some t =>
      have hof := List.find?_some hfirst
      have hof := of_decide_eq_true hof
      rw [if_pos ⟨t, List.mem_of_find?_eq_some hfirst, hof⟩]
      exact congrArg some hof.1
    | none =>
      rw [if_neg]
      · rfl
      · rintro ⟨t, hmem, hof⟩
        exact List.find?_eq_none.mp hfirst t hmem (decide_eq_true hof)

/-- **The schema of a project** has for each name and each variable the definition that counts, in
whatever order the tree lists the files.  It does not depend on how the files of one form stand
among those of the other, and in no order of the files another form counts. -/
theorem reflects_ofProject (tree : FileTree) :
    (Schema.ofProject p tree).Reflects (scanned p tree) ∧
      (∀ other, SameWithinForms other tree → Schema.ofProject p other = Schema.ofProject p tree) ∧
      ∀ other : FileTree, other.paths.Perm tree.paths → ∀ name,
        (Schema.ofProject p other).form? name = (Schema.ofProject p tree).form? name := by
  have hreflects : ∀ t, (Schema.ofProject p t).Reflects (scanned p t) := by
    intro t
    rw [ofProject_eq_ofFiles]
    exact reflects_ofFiles _
  refine ⟨hreflects tree, fun other h => ofProject_congr p h, fun other hperm name => ?_⟩
  have hscanned : (scanned p other).Perm (scanned p tree) :=
    (hperm.filterMap _).flatMap_right _
  rw [(hreflects other).form?_eq, (hreflects tree).form?_eq]
  simp only [hscanned.mem_iff]

/-- A project in which a statement, a builder and another builder define one table, and a statement
alone defines another. -/
def twiceBuilt : Project where
  files := ⟨[(["app"], .directory),
    (["app", "a.sql"], .file (.text
      "CREATE TABLE users (id int);\nCREATE TABLE visits (page text, at date);".toList)),
    (["app", "b.ts"],
      .file (.text "export const people = pgTable('users', { old: text() })".toList)),
    (["app", "c.ts"],
      .file (.text "export const users = pgTable('users', { id: text() })".toList))]⟩
  directory := ["app"]

/-- Wherever the statements stand among the builders, the last of these counts, and where there is
none a statement. -/
theorem reflects_ofProject_twiceBuilt :
    SameWithinForms ⟨["b.ts", "c.ts", "a.sql"]⟩ ⟨["a.sql", "b.ts", "c.ts"]⟩ ∧
      Schema.ofProject twiceBuilt ⟨["b.ts", "c.ts", "a.sql"]⟩ =
        Schema.ofProject twiceBuilt ⟨["a.sql", "b.ts", "c.ts"]⟩ ∧
      (["c.ts", "a.sql", "b.ts"].Perm ["a.sql", "b.ts", "c.ts"]) ∧
      (Schema.ofProject twiceBuilt ⟨["c.ts", "a.sql", "b.ts"]⟩).form? "users" =
        (Schema.ofProject twiceBuilt ⟨["a.sql", "b.ts", "c.ts"]⟩).form? "users" ∧
      ((Schema.ofProject twiceBuilt ⟨["a.sql", "b.ts", "c.ts"]⟩).resolve? "people").map
        (·.columns.names) = some ["id"] ∧
      ((Schema.ofProject twiceBuilt ⟨["a.sql", "b.ts", "c.ts"]⟩).tables.find? "visits").map
        (fun t => (t.source, t.columns.names)) = some (.statement, ["page", "at"]) := by
  have hsame : SameWithinForms ⟨["b.ts", "c.ts", "a.sql"]⟩ ⟨["a.sql", "b.ts", "c.ts"]⟩ :=
    ⟨by decide, by decide⟩
  have hperm : ["c.ts", "a.sql", "b.ts"].Perm ["a.sql", "b.ts", "c.ts"] := by decide
  obtain ⟨hreflects, hform, hany⟩ := reflects_ofProject twiceBuilt ⟨["a.sql", "b.ts", "c.ts"]⟩
  refine ⟨hsame, hform _ hsame, hperm, hany ⟨["c.ts", "a.sql", "b.ts"]⟩ hperm "users",
    by decide +kernel, ?_⟩
  -- No builder has the name, so that the first statement counts.
  rw [hreflects.table]
  decide +kernel

end Projects

end PlanAudit.Sql
