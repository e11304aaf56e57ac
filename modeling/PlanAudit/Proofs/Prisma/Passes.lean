import Mathlib.Data.List.Induction
import PlanAudit.Prisma.Schema
import PlanAudit.Proofs.Catalog
import PlanAudit.Proofs.Text.Words

/-!
# Reading a schema in two passes

While the blocks of a schema are read one after the other, a field is known to lead to a model only
if that model stands further up.  The second pass finds the others, so that in the end every field
is marked as if all models had been known from the start.

## Main definitions

* `declaredModels`: the names of the models that a text declares
* `Schema.ofModels`: the schema of models that are known all at once

## Main results

* `mark_modelOf`: what the second pass makes of a model that was read with few models known
* `parse_eq_ofModels`: the two passes read a schema as if all its models were known
-/

namespace PlanAudit.Prisma

open Text Pattern

/-- The names of the models that a text declares, in order. -/
def declaredModels (content : List Char) : List String :=
  (modelBlock.findAll content).map (Match.name · 1)

/-- The schema with the models and enumerations given. -/
def Schema.ofModels (models : List Model) (enums : List String) : Schema :=
  { models := Catalog.ofList (models.map fun m => (m.name, m))
    enums := enums
    accessorToModel := Catalog.ofList (models.map fun m => (m.accessor, m.name))
    modelToAccessor := Catalog.ofList (models.map fun m => (m.name, m.accessor)) }

/-! ## The second pass -/

section Mark

variable {known all : List String}

/-- A field that was read with few models known is marked as if more of them had been. -/
theorem map_mark_fieldOf? (h : ∀ n ∈ known, n ∈ all) (line : List Char) :
    (fieldOf? known line).map (Field.mark all) = fieldOf? all line := by
  unfold fieldOf?
  split
  · rfl
  split
  · rfl
  rename_i m _
  split
  · rfl
  rw [Option.map_some, Field.mark]
  by_cases hall : m.name 2 ∈ all
  · -- What was not a relation becomes one.
    cases hfirst : known.contains (m.name 2) || contains relationMark line <;> simp [hall]
  · -- No model of the few is the type.
    have hknown : m.name 2 ∉ known := fun hmem => hall (h _ hmem)
    simp [hall, hknown]

/-- **The second pass** makes of a model what it is where all models are known. -/
theorem mark_modelOf (h : ∀ n ∈ known, n ∈ all) (m : Match) :
    (modelOf known m).mark all = modelOf all m := by
  have hfields : (modelOf known m).fields.map (Field.mark all) = (modelOf all m).fields := by
    rw [modelOf, modelOf, Catalog.map_ofList]
    refine congrArg Catalog.ofList ?_
    -- The fields stand under the same names, since marking changes none.
    have hname : ∀ f : Field, (f.mark all).name = f.name := fun f => by
      unfold Field.mark
      split <;> rfl
    rw [List.map_map, ← funext fun line => map_mark_fieldOf? h (strip line), ← List.map_filterMap,
      List.map_map]
    exact List.map_congr_left fun f _ => congrArg (·, f.mark all) (hname f).symm
  exact congrArg (Model.mk _ _) hfields

/-- A model depends only on which models are known. -/
theorem modelOf_congr (h : ∀ n, n ∈ known ↔ n ∈ all) (m : Match) :
    modelOf known m = modelOf all m := by
  have hcontains : ∀ n, known.contains n = all.contains n := fun n => by
    rw [Bool.eq_iff_iff, List.contains_iff_mem, List.contains_iff_mem]
    exact h n
  simp only [modelOf, fieldOf?, hcontains]

end Mark

/-! ## The first pass -/

section Enter

variable {all : List String} {blocks : List Match} {s : Schema}

theorem mem_names_enter {b : Match} {name : String} :
    name ∈ (s.enter b).models.names ↔ name ∈ s.models.names ∨ name = b.name 1 := by
  rw [Catalog.mem_names_iff, Catalog.mem_names_iff]
  exact Catalog.contains_alter

theorem mem_names_foldl_enter {name : String} :
    name ∈ (blocks.foldl Schema.enter s).models.names ↔
      name ∈ s.models.names ∨ name ∈ blocks.map (Match.name · 1) := by
  induction blocks generalizing s with
  | nil => simp
  | cons b blocks ih =>
    rw [List.foldl_cons, ih, mem_names_enter, List.map_cons, List.mem_cons, or_assoc]

/-- **The models of the first pass**, once they are marked.  The invariant is that only names of
models are known. -/
theorem map_mark_foldl_enter (hs : ∀ n ∈ s.models.names, n ∈ all)
    (hblocks : ∀ b ∈ blocks, b.name 1 ∈ all) :
    (blocks.foldl Schema.enter s).models.map (Model.mark all) =
      (blocks.map fun b => (b.name 1, modelOf all b)).foldl (fun c p => c.insert p.1 p.2)
        (s.models.map (Model.mark all)) := by
  induction blocks generalizing s with
  | nil => rfl
  | cons b blocks ih =>
    obtain ⟨hb, hblocks⟩ := List.forall_mem_cons.mp hblocks
    have henter : ∀ n ∈ (s.enter b).models.names, n ∈ all := fun n hn =>
      (mem_names_enter.mp hn).elim (hs n) fun hname => hname ▸ hb
    have hmarked : (s.enter b).models.map (Model.mark all) =
        (s.models.map (Model.mark all)).insert (b.name 1) (modelOf all b) := by
      rw [← mark_modelOf hs b]
      exact Catalog.map_insert _ _ _ _
    rw [List.foldl_cons, ih henter hblocks, hmarked, List.map_cons, List.foldl_cons]

/-- What the first pass does besides entering models. -/
theorem foldl_enter_rest (blocks : List Match) (s : Schema) :
    (blocks.foldl Schema.enter s).enums = s.enums ∧
      (blocks.foldl Schema.enter s).accessorToModel =
        (blocks.map fun b => (accessor (b.name 1), b.name 1)).foldl (fun c p => c.insert p.1 p.2)
          s.accessorToModel ∧
      (blocks.foldl Schema.enter s).modelToAccessor =
        (blocks.map fun b => (b.name 1, accessor (b.name 1))).foldl (fun c p => c.insert p.1 p.2)
          s.modelToAccessor := by
  induction blocks generalizing s with
  | nil => exact ⟨rfl, rfl, rfl⟩
  | cons b blocks ih => exact ih (s.enter b)

end Enter

/-- **The two passes** read a schema as if all its models were known from the start. -/
theorem parse_eq_ofModels (content : List Char) : Schema.parse content =
    .ofModels ((modelBlock.findAll content).map (modelOf (declaredModels content)))
      ((enumHead.findAll content).map (Match.name · 1)) := by
  set start : Schema := .ofEnums ((enumHead.findAll content).map (Match.name · 1))
  have hnames : ∀ n, n ∈ ((modelBlock.findAll content).foldl Schema.enter start).models.names ↔
      n ∈ declaredModels content := fun n =>
    mem_names_foldl_enter.trans (or_iff_right List.not_mem_nil)
  have hmodels := map_mark_foldl_enter (s := start) (List.forall_mem_nil _) fun b hb =>
    (hnames (b.name 1)).mpr (List.mem_map_of_mem hb)
  obtain ⟨henums, haccessor, hmodel⟩ := foldl_enter_rest (modelBlock.findAll content) start
  simp only [modelOf_congr hnames] at hmodels
  rw [Schema.parse, Schema.marked, hmodels, henums, haccessor, hmodel, Schema.ofModels,
    List.map_map, List.map_map, List.map_map]
  rfl

/-! ## The line of a stored field -/

/-- Whether a line declares a field of the name. -/
def declares (field : String) (line : List Char) : Bool :=
  (fieldOf? [] (strip line)).any fun f => f.name = field

/-- The line from which a stored field is read: of the last model with its name, the last line that
declares a field with its name. -/
def sourceLine? (content : List Char) (model field : String) : Option (List Char) :=
  ((modelBlock.findAll content).filter fun block => block.name 1 = model).getLast?.bind fun block =>
    (((block.group 2).splitOn '\n').filter (declares field)).getLast?

section SourceLine

variable {models : List String} {line : List Char} {f : Field}

/-- What a line declares does not depend on the models that are known, except for the mark. -/
theorem exists_fieldOf?_nil (h : fieldOf? models line = some f) :
    ∃ plain, fieldOf? [] line = some plain ∧ plain.name = f.name ∧ plain.type = f.type ∧
      plain.isList = f.isList := by
  have hmark : (fieldOf? [] line).map (Field.mark models) = fieldOf? models line :=
    map_mark_fieldOf? (List.forall_mem_nil _) line
  rw [h] at hmark
  obtain ⟨plain, hplain, rfl⟩ := Option.map_eq_some_iff.mp hmark
  refine ⟨plain, hplain, ?_⟩
  unfold Field.mark
  split <;> exact ⟨rfl, rfl, rfl⟩

theorem declares_eq (models : List String) (field : String) (line : List Char) :
    declares field line = (fieldOf? models (strip line)).any fun f => f.name = field := by
  have hmark : (fieldOf? [] (strip line)).map (Field.mark models) =
      fieldOf? models (strip line) := map_mark_fieldOf? (List.forall_mem_nil _) (strip line)
  rw [← hmark, declares]
  cases fieldOf? [] (strip line) with
  | none => rfl
  | some plain =>
    have hname : (plain.mark models).name = plain.name := by
      unfold Field.mark
      split <;> rfl
    simp [hname]

/-- **The mark of a field** says that its type is a known model or that the line says so. -/
theorem isRelation_of_fieldOf? (h : fieldOf? models line = some f) :
    f.isRelation = true ↔ f.type ∈ models ∨ relationMark <:+: line := by
  unfold fieldOf? at h
  split at h
  · cases h
  split at h
  · cases h
  split at h
  · cases h
  obtain rfl := Option.some.inj h
  rw [Bool.or_eq_true, List.contains_iff_mem, contains_iff_infix]

theorem relationMark_infix_strip_iff : relationMark <:+: strip line ↔ relationMark <:+: line :=
  infix_strip_iff (by decide) (by decide)

/-- Of what is read as fields, the last one with a name is listed under it. -/
theorem exists_getLast?_of_find? {α : Type} {read : α → Option Field} {lines : List α}
    {field : String} (h : (Catalog.ofList ((lines.filterMap read).map fun f => (f.name, f))).find?
      field = some f) :
    ∃ line, (lines.filter fun line => (read line).any fun f => f.name = field).getLast? =
      some line ∧ read line = some f := by
  rw [Catalog.find?_ofList] at h
  -- Induction on the lines from the last one on: it counts if it is read as such a field.
  induction lines using List.reverseRecOn with
  | nil => cases h
  | append_singleton lines line ih =>
    rw [List.filterMap_append, List.map_append, List.filter_append] at h
    rw [List.filter_append]
    cases hread : read line with
    | none =>
      simp only [List.filterMap_cons_none hread, List.filterMap_nil, List.map_nil, List.filter_nil,
        List.append_nil] at h
      simpa [hread] using ih h
    | some g =>
      rw [List.filterMap_cons_some hread, List.filterMap_nil] at h
      by_cases hname : g.name = field
      · refine ⟨line, by simp [hread, hname], ?_⟩
        simpa [hname, hread] using h
      · have hlater : (((lines.filterMap read).map fun f => (f.name, f)).filter
            fun p => p.1 = field).getLast?.map Prod.snd = some f := by
          simpa [hname] using h
        simpa [hread, hname] using ih hlater

/-- **The flag of a stored field**: it leads to a model exactly if its type is the name of one that
is declared anywhere in the text, or the line from which it is read says so. -/
theorem isRelation_of_find? {content : List Char} {name field : String} {model : Model}
    (hmodel : (Schema.parse content).models.find? name = some model)
    (hfield : model.fields.find? field = some f) :
    ∃ line plain, sourceLine? content name field = some line ∧
      fieldOf? [] (strip line) = some plain ∧ f.name = plain.name ∧ f.type = plain.type ∧
        (f.isRelation = true ↔ f.type ∈ declaredModels content ∨ relationMark <:+: line) := by
  rw [parse_eq_ofModels, Schema.ofModels, List.map_map, Catalog.find?_ofList, List.filter_map,
    List.getLast?_map, Option.map_map] at hmodel
  obtain ⟨block, hblock, rfl⟩ := Option.map_eq_some_iff.mp hmodel
  obtain ⟨line, hline, hread⟩ := exists_getLast?_of_find? hfield
  obtain ⟨plain, hplain, hname, htype, -⟩ := exists_fieldOf?_nil hread
  refine ⟨line, plain, ?_, hplain, hname.symm, htype.symm, ?_⟩
  · rw [sourceLine?, Option.bind_eq_some_iff]
    refine ⟨block, hblock, ?_⟩
    rw [← hline]
    exact congrArg List.getLast? (List.filter_congr fun line _ => declares_eq _ field line)
  · rw [isRelation_of_fieldOf? hread, relationMark_infix_strip_iff]

end SourceLine

end PlanAudit.Prisma
