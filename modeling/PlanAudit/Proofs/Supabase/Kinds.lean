import PlanAudit.Proofs.Checker.Evidence
import PlanAudit.Proofs.Pattern.Reading
import PlanAudit.Supabase.Judgement

/-!
# Columns are told apart by their texts

A column that is not there is reported in the same way whether it stands in a selection, in the
parentheses of an embedded relation, or in a filter.  The text tells where it stood: only the text
of an embedded column is that of a selection with an inner parenthesis, since a filter is never
called `select` and the name of a column holds no parenthesis.

## Main definitions

* `ShowsEmbed raw`: the text is that of a column of an embedded relation
* `told`: the sort of thing with a category and a text

## Main results

* `nodup_targets_analyze`: no two rejected tables, columns or functions show the same
-/

namespace PlanAudit.Supabase

open PlanAudit.Text Pattern

/-- How the text of a selected column begins. -/
def selectOpening : List Char := ".select(".toList

/-- The text is that of a selection with a parenthesis inside. -/
def ShowsEmbed (raw : String) : Prop :=
  selectOpening <+: raw.toList ∧ '(' ∈ raw.toList.drop selectOpening.length

instance (raw : String) : Decidable (ShowsEmbed raw) := inferInstanceAs (Decidable (_ ∧ _))

/-- The sort of thing that was rejected for a category with a text. -/
def told (c : Category) (raw : String) : Kind :=
  if c = .function then .function
  else if c = .table then .table
  else if ShowsEmbed raw then .embed
  else .column

theorem told_column (raw : String) :
    told .column raw = if ShowsEmbed raw then .embed else .column := rfl

/-! ## Selections -/

theorem not_mem_of_soleName {text : List Char} (h : soleName.matchesStart text = true) :
    '(' ∉ text := by
  intro hmem
  rw [matchesStart_soleName_eq_false hmem (by decide) (by decide)] at h
  cases h

theorem toList_raw_embedMention (relation column : String) :
    (embedMention relation (some column)).raw.toList =
      selectOpening ++ ("'...".toList ++ relation.toList ++ "(".toList ++ column.toList ++
        ")...')".toList) := by
  have hopening : ".select('...".toList = selectOpening ++ "'...".toList := by decide
  change (".select('..." ++ relation ++ "(" ++ column ++ ")...')").toList = _
  simp only [String.toList_append, hopening, List.append_assoc]

theorem toList_raw_columnMention (table column : String) :
    (columnMention table column).raw.toList =
      selectOpening ++ ("'...".toList ++ column.toList ++ "...')".toList) := by
  have hopening : ".select('...".toList = selectOpening ++ "'...".toList := by decide
  change (".select('..." ++ column ++ "...')").toList = _
  simp only [String.toList_append, hopening, List.append_assoc]

theorem showsEmbed_embedMention (relation column : String) :
    ShowsEmbed (embedMention relation (some column)).raw := by
  have hparen : '(' ∈ "(".toList := by decide
  rw [ShowsEmbed, toList_raw_embedMention, List.drop_left]
  exact ⟨List.prefix_append _ _, by simp only [List.mem_append, hparen, or_true, true_or]⟩

theorem not_showsEmbed_columnMention {column : String} (table : String)
    (h : '(' ∉ column.toList) : ¬ ShowsEmbed (columnMention table column).raw := by
  have hopening : '(' ∉ "'...".toList := by decide
  have hclosing : '(' ∉ "...')".toList := by decide
  rintro ⟨-, hmem⟩
  rw [toList_raw_columnMention, List.drop_left] at hmem
  simp only [List.mem_append, h, hopening, hclosing, or_self] at hmem

theorem shape_of_mem_ite {column : List Char} {table : String} {m : Mention}
    (h : m ∈ if soleName.matchesStart column then [columnMention table (String.ofList column)]
      else []) : m.kind = .column ∧ ¬ ShowsEmbed m.raw := by
  split at h
  · rename_i hsole
    obtain rfl := List.mem_singleton.mp h
    refine ⟨rfl, not_showsEmbed_columnMention table ?_⟩
    rw [String.toList_ofList]
    exact not_mem_of_soleName hsole
  · cases h

/-- What is selected is an embedded relation or a column, and the text tells which. -/
theorem shape_of_mem_selectMentions {selection : List Char} {table : String} {m : Mention}
    (h : m ∈ selectMentions selection table) :
    (m.kind = .embed ∧ (m.name = none ∨ ShowsEmbed m.raw)) ∨
      (m.kind = .column ∧ ¬ ShowsEmbed m.raw) := by
  obtain ⟨part, -, hm⟩ := List.mem_flatMap.mp h
  unfold partMentions at hm
  split at hm
  · cases hm
  · split at hm
    · simp only at hm
      rcases List.mem_cons.mp hm with rfl | hm
      · exact Or.inl ⟨rfl, Or.inl rfl⟩
      · obtain ⟨c, -, rfl⟩ := List.mem_map.mp hm
        exact Or.inl ⟨rfl, Or.inr (showsEmbed_embedMention _ _)⟩
    · exact Or.inr (shape_of_mem_ite hm)

/-! ## Filters -/

/-- The text of a filter begins with a dot, a method and a parenthesis. -/
theorem exists_prefix_of_mem_filterCall {plan : List Char} {found : Match}
    (h : found ∈ filterCall.findAll plan) :
    ∃ method ∈ filterMethods, '.' :: method.toList ++ ['('] <+: found.text := by
  obtain ⟨c, d, hd, hstart, hstop, htail⟩ := exists_outcome_of_mem_findAll h
  -- A dot, a method, a parenthesis, blanks and a quoted column, from the last to the first.
  obtain ⟨e₃, h₃, hquoted⟩ := mem_outcomes_append.mp hd
  obtain ⟨e₂, h₂, hblanks⟩ := mem_outcomes_append.mp h₃
  obtain ⟨e₁, h₁, hparen⟩ := mem_outcomes_append.mp h₂
  obtain ⟨e₀, hdot, hmethod⟩ := mem_outcomes_append.mp h₁
  obtain ⟨e, he, rfl⟩ := mem_outcomes_capture.mp hmethod
  obtain ⟨method, hmem, hread⟩ := exists_reads_of_mem_oneOfTexts he
  obtain ⟨v, hv, -⟩ := exists_reads (readsOnly_true _) _ _ hblanks
  obtain ⟨w, hw, -⟩ := exists_reads (readsOnly_true _) _ _ hquoted
  have hall := ((((reads_of_mem_char hdot).trans hread.record).trans
    (reads_of_mem_char hparen)).trans hv).trans hw
  refine ⟨method, hmem, ?_⟩
  rw [text_eq_of_reads hall hstart hstop htail, List.append_assoc _ v w]
  exact List.prefix_append _ _

theorem not_showsEmbed_of_mem_filterCall {plan : List Char} {found : Match}
    (h : found ∈ filterCall.findAll plan) : ¬ ShowsEmbed found.string := by
  rintro ⟨hselect, -⟩
  obtain ⟨method, hmem, hfilter⟩ := exists_prefix_of_mem_filterCall h
  have htext : found.string.toList = found.text := String.toList_ofList
  rw [htext] at hselect
  -- Of two beginnings of one text the shorter begins the longer.
  have hnone : ∀ method ∈ filterMethods, ¬ '.' :: method.toList ++ ['('] <+: selectOpening ∧
      ¬ selectOpening <+: '.' :: method.toList ++ ['('] := by decide
  rcases List.prefix_or_prefix_of_prefix hfilter hselect with hp | hp
  · exact (hnone method hmem).1 hp
  · exact (hnone method hmem).2 hp

/-! ## Mentions -/

/-- The sort of a mention is a table without a name, a function, or a column that its text tells
from an embedded one. -/
inductive Shape (m : Mention) : Prop where
  | table (kind : m.kind = .table) (name : m.name = none)
  | function (kind : m.kind = .function)
  | embed (kind : m.kind = .embed) (shows : m.name = none ∨ ShowsEmbed m.raw)
  | column (kind : m.kind = .column) (shows : ¬ ShowsEmbed m.raw)

theorem shape_of_mem_mentions {plan : List Char} {m : Mention} (h : m ∈ mentions plan) :
    Shape m := by
  have hmem := mem_of_mem_firstPerKey _ h
  simp only [List.mem_append] at hmem
  -- Tables, selections, filters and functions.
  rcases hmem with ((hm | hm) | hm) | hm
  · obtain ⟨found, -, rfl⟩ := List.mem_map.mp hm
    exact .table rfl rfl
  · obtain ⟨found, -, hm⟩ := List.mem_flatMap.mp hm
    split at hm
    · obtain ⟨selected, hsel, rfl⟩ := List.mem_map.mp hm
      rcases shape_of_mem_selectMentions hsel with ⟨hkind, hshow⟩ | ⟨hkind, hshow⟩
      · exact .embed hkind hshow
      · exact .column hkind hshow
    · cases hm
  · obtain ⟨found, hfound, hm⟩ := List.mem_filterMap.mp hm
    obtain ⟨table, -, rfl⟩ := Option.map_eq_some_iff.mp hm
    exact .column rfl (not_showsEmbed_of_mem_filterCall hfound)
  · obtain ⟨found, -, rfl⟩ := List.mem_map.mp hm
    exact .function rfl

/-! ## Judgements -/

/-- What has a name and is no function is a column, and its text tells which sort of column. -/
theorem Shape.kind_eq_told {m : Mention} (hshape : Shape m) (hfunction : ¬ m.kind = .function)
    {column : String} (hname : m.name = some column) : m.kind = told .column m.raw := by
  cases hshape with
  | table _ hnone =>
    rw [hname] at hnone
    cases hnone
  | function hkind => exact absurd hkind hfunction
  | embed hkind hshows =>
    have hembed : ShowsEmbed m.raw := hshows.resolve_left (by simp [hname])
    rw [hkind, told_column, if_pos hembed]
  | column hkind hshows => rw [hkind, told_column, if_neg hshows]

theorem exists_reject_of_judge? {schema : Schema} {m : Mention} {r : Reference} (hshape : Shape m)
    (h : judge? schema m = some r) (hrej : r.hallucinated = true) :
    ∃ c s, r = m.reject c s ∧ m.kind = told c m.raw := by
  unfold judge? at h
  -- A function, a column of a table that is there, or a table.
  split at h
  · rename_i hfunction
    obtain rfl := Option.some.inj h
    unfold judgeFunction at hrej ⊢
    split at hrej
    · cases hrej
    · rw [if_neg ‹_›]
      exact ⟨.function, _, rfl, hfunction⟩
  · rename_i hfunction
    split at h
    · obtain rfl := Option.some.inj h
      unfold judgeColumn at hrej ⊢
      split at hrej
      · cases hrej
      · rename_i column hname
        split at hrej
        · cases hrej
        · rw [if_neg ‹_›]
          exact ⟨.column, _, rfl, hshape.kind_eq_told hfunction hname⟩
    · -- Whatever else stands on a table that is not there is passed over.
      split at h
      · rename_i htable
        obtain rfl := Option.some.inj h
        exact ⟨.table, _, rfl, htable⟩
      · cases h

theorem nodup_targets_analyze (plan : List Char) (schema : Schema) :
    ((rejected (analyze plan schema)).map Reference.target).Nodup := by
  refine nodup_targets_dedupe (KindTold.of_reject told fun r hr hrej => ?_)
  obtain ⟨m, hm, hjudge⟩ := List.mem_filterMap.mp hr
  obtain ⟨c, s, hreject, hkind⟩ := exists_reject_of_judge? (shape_of_mem_mentions hm) hjudge hrej
  exact ⟨m, c, s, hreject, hkind⟩

end PlanAudit.Supabase
