import PlanAudit.Env.Judgement
import PlanAudit.Packages.ApiJudgement
import PlanAudit.Paths.Judgement
import PlanAudit.Prisma.Judgement
import PlanAudit.Proofs.Checker.Evidence
import PlanAudit.Proofs.Fault
import PlanAudit.Proofs.Packages.Judgement
import PlanAudit.Routes.Judgement
import PlanAudit.Sql.Judgement

/-!
# The category tells the sort of thing

Most domains mention, under one category of rejection, only one sort of thing.  So the category
alone tells the sort of a rejected reference.

## Main results

* `Paths.nodup_targets_analyze`, `Env.nodup_targets_analyze`, …: in the judgements of every such
  domain no two rejected references show the same
-/

namespace PlanAudit

/-- The sort of thing that most domains mention under a category. -/
def Category.soleKind : Category → Kind
  | path => .path
  | model => .model
  | field => .field
  | invalidMethod => .method
  | wrongRelation => .relation
  | table => .table
  | column => .column
  | function => .function
  | type => .type
  | member => .member
  | route => .route
  | httpMethod => .route
  | namedImport => .namedImport
  | packageNotFound => .importSource
  | subpathNotExported => .importSource
  | envVariable => .env

/-- The reference is the mention, rejected for a category under which such things are mentioned. -/
def SoleReject (m : Mention) (r : Reference) : Prop :=
  ∃ c s, r = m.reject c s ∧ m.kind = c.soleKind

theorem KindTold.of_soleReject {refs : List Reference}
    (h : ∀ r ∈ refs, r.hallucinated = true → ∃ m, SoleReject m r) : KindTold refs := by
  refine KindTold.of_reject (fun c _ => c.soleKind) fun r hr hrej => ?_
  obtain ⟨m, c, s, hr, hkind⟩ := h r hr hrej
  exact ⟨m, c, s, hr, hkind⟩

/-- What is either accepted or rejected for one category. -/
theorem SoleReject.of_ite {p : Prop} [Decidable p] {m : Mention} {c : Category}
    {s : Option String} (hkind : m.kind = c.soleKind)
    (hrej : (if p then m.accept else m.reject c s).hallucinated = true) :
    SoleReject m (if p then m.accept else m.reject c s) := by
  by_cases hp : p
  · rw [if_pos hp] at hrej
    cases hrej
  · rw [if_neg hp]
    exact ⟨c, s, rfl, hkind⟩

/-! ## File paths -/

namespace Paths

theorem raw_judge (tree : FileTree) (plan : List Char) (allowed : List String) (m : Mention) :
    (judge tree plan allowed m).raw = m.raw := by
  unfold judge
  split
  · rfl
  · split <;> rfl

/-- Paths are not judged twice, so that there are no repetitions to remove. -/
theorem nodup_raw_analyze (plan : List Char) (tree : FileTree) (allowed : List String) :
    ((analyze plan tree allowed).map (·.raw)).Nodup := by
  have hraw : (analyze plan tree allowed).map (·.raw) = (mentions plan).map Mention.raw := by
    rw [analyze, List.map_map]
    exact List.map_congr_left fun m _ => raw_judge tree plan allowed m
  rw [hraw]
  exact Text.nodup_map_firstPerKey Mention.raw _

theorem nodup_targets_analyze (plan : List Char) (tree : FileTree) (allowed : List String) :
    ((rejected (analyze plan tree allowed)).map Reference.target).Nodup := by
  have hraw : ((rejected (analyze plan tree allowed)).map (·.raw)).Nodup :=
    (List.filter_sublist.map _).nodup (nodup_raw_analyze plan tree allowed)
  have hsnd : (rejected (analyze plan tree allowed)).map (·.raw) =
      ((rejected (analyze plan tree allowed)).map Reference.target).map Prod.snd := by
    rw [List.map_map]
    rfl
  rw [hsnd] at hraw
  exact List.Nodup.of_map _ hraw

end Paths

/-! ## Client calls -/

namespace Prisma

theorem soleReject_judgeRelation {model : Model} {m : Mention} (hkind : m.kind = .relation)
    (hrej : (judgeRelation model m).hallucinated = true) :
    SoleReject m (judgeRelation model m) := by
  unfold judgeRelation at hrej ⊢
  -- No such field, or a field that is no relation.
  split at hrej
  · exact ⟨.wrongRelation, _, rfl, hkind⟩
  · exact SoleReject.of_ite hkind hrej

theorem soleReject_judge? {schema : Schema} {m : Mention} {r : Reference}
    (hkind : m.kind = .model ∨ m.kind = .method ∨ m.kind = .field ∨ m.kind = .relation)
    (h : judge? schema m = some r) (hrej : r.hallucinated = true) : SoleReject m r := by
  unfold judge? at h
  -- Models, methods, fields and relations are each rejected for a category of their own.
  rcases hkind with hk | hk | hk | hk <;> rw [hk] at h
  · obtain rfl := Option.some.inj h
    exact SoleReject.of_ite hk hrej
  · obtain rfl := Option.some.inj h
    exact SoleReject.of_ite hk hrej
  · obtain ⟨model, -, rfl⟩ := Option.map_eq_some_iff.mp h
    exact SoleReject.of_ite hk hrej
  · obtain ⟨model, -, rfl⟩ := Option.map_eq_some_iff.mp h
    exact soleReject_judgeRelation hk hrej

theorem kind_fieldMention (offset : Nat) (accessor key : String) :
    (fieldMention offset accessor key).kind = .field := rfl

theorem kind_relationMention (offset : Nat) (accessor key : String) :
    (relationMention offset accessor key).kind = .relation := rfl

theorem kind_of_mem_blockMentions {block : Pattern} {counts : String → Bool}
    {mention : Nat → String → String → Mention} {clients : List String} {code : List Char}
    {k : Kind} (hk : ∀ offset accessor key, (mention offset accessor key).kind = k) {m : Mention}
    (h : m ∈ blockMentions block counts mention clients code) : m.kind = k := by
  obtain ⟨found, -, hm⟩ := List.mem_flatMap.mp h
  -- A block of another client mentions nothing.
  split at hm
  · obtain ⟨key, -, rfl⟩ := List.mem_map.mp hm
    exact hk _ _ _
  · cases hm

theorem kind_of_mem_mentions {plan : List Char} {m : Mention} (h : m ∈ mentions plan) :
    m.kind = .model ∨ m.kind = .method ∨ m.kind = .field ∨ m.kind = .relation := by
  have hmem := Text.mem_of_mem_firstPerKey _ h
  -- A call mentions a model and a method; the blocks in its arguments mention fields and relations.
  rcases List.mem_append.mp hmem with hmem | hmem
  · rcases List.mem_append.mp hmem with hmem | hmem
    · obtain ⟨found, -, hm⟩ := List.mem_flatMap.mp hmem
      simp only [callMentions, List.mem_cons, List.not_mem_nil, or_false] at hm
      rcases hm with rfl | rfl
      · exact Or.inl rfl
      · exact Or.inr (Or.inl rfl)
    · exact Or.inr (Or.inr (Or.inl (kind_of_mem_blockMentions kind_fieldMention hmem)))
  · exact Or.inr (Or.inr (Or.inr (kind_of_mem_blockMentions kind_relationMention hmem)))

theorem nodup_targets_analyze (plan : List Char) (schema : Schema) :
    ((rejected (analyze plan schema)).map Reference.target).Nodup := by
  refine nodup_targets_dedupe (KindTold.of_soleReject fun r hr hrej => ?_)
  obtain ⟨m, hm, hjudge⟩ := List.mem_filterMap.mp hr
  exact ⟨m, soleReject_judge? (kind_of_mem_mentions hm) hjudge hrej⟩

end Prisma

/-! ## Tables and columns -/

namespace Sql

/-- A mention is of a table, or of a column by name. -/
theorem kind_of_mem_mentions {plan : List Char} {m : Mention} (h : m ∈ mentions plan) :
    (m.kind = .table ∧ m.name = none) ∨ m.kind = .column := by
  have hmem := Text.mem_of_mem_firstPerKey _ h
  rcases List.mem_append.mp hmem with hmem | hmem
  · rcases List.mem_append.mp hmem with hmem | hmem
    · obtain ⟨p, -, hm⟩ := List.mem_flatMap.mp hmem
      obtain ⟨found, -, rfl⟩ := List.mem_map.mp hm
      exact Or.inl ⟨rfl, rfl⟩
    · obtain ⟨found, -, rfl⟩ := List.mem_map.mp hmem
      exact Or.inr rfl
  · obtain ⟨found, -, rfl⟩ := List.mem_map.mp hmem
    exact Or.inl ⟨rfl, rfl⟩

theorem soleReject_judge? {schema : Schema} {m : Mention} {r : Reference}
    (hkind : (m.kind = .table ∧ m.name = none) ∨ m.kind = .column)
    (h : judge? schema m = some r) (hrej : r.hallucinated = true) : SoleReject m r := by
  unfold judge? at h
  split at h
  · -- The table is not there: columns of it are passed over, so that a table is rejected.
    split at h
    · cases h
    · obtain rfl := Option.some.inj h
      have htable : m.kind = .table := (hkind.resolve_right ‹_›).1
      exact ⟨.table, _, rfl, htable⟩
  · -- The table is there: only what has a name is rejected, and that is a column.
    split at h
    · obtain rfl := Option.some.inj h
      cases hrej
    · rename_i column hname
      have hcolumn : m.kind = .column := hkind.resolve_left fun hm => by simp [hname] at hm
      split at h
      · obtain rfl := Option.some.inj h
        cases hrej
      · obtain rfl := Option.some.inj h
        exact ⟨.column, _, rfl, hcolumn⟩

theorem nodup_targets_analyze (plan : List Char) (schema : Schema) :
    ((rejected (analyze plan schema)).map Reference.target).Nodup := by
  refine nodup_targets_dedupe (KindTold.of_soleReject fun r hr hrej => ?_)
  obtain ⟨m, hm, hjudge⟩ := List.mem_filterMap.mp hr
  exact ⟨m, soleReject_judge? (kind_of_mem_mentions hm) hjudge hrej⟩

end Sql

/-! ## Environment variables -/

namespace Env

theorem kind_of_mem_mentions {plan : List Char} {m : Mention} (h : m ∈ mentions plan) :
    m.kind = .env := by
  have hmem := (List.mem_filter.mp (Text.mem_of_mem_firstPerKey _ h)).1
  obtain ⟨p, -, hm⟩ := List.mem_flatMap.mp hmem
  obtain ⟨found, -, rfl⟩ := List.mem_map.mp hm
  rfl

theorem nodup_targets_analyze (plan : List Char) (index : Index) :
    ((rejected (analyze plan index)).map Reference.target).Nodup := by
  refine nodup_targets_dedupe (KindTold.of_soleReject fun r hr hrej => ?_)
  obtain ⟨m, hm, rfl⟩ := List.mem_map.mp hr
  exact ⟨m, SoleReject.of_ite (kind_of_mem_mentions hm) hrej⟩

end Env

/-! ## Packages -/

namespace Packages

/-! ### Imports -/

theorem kind_of_mem_importMentions {plan : List Char} {m : Mention} (h : m ∈ importMentions plan) :
    m.kind = .importSource := by
  obtain ⟨source, -, rfl⟩ := List.mem_map.mp h
  rfl

theorem soleReject_judgeImport {files : FileSystem} {packages : Path} {m : Mention}
    {r : Reference} (hkind : m.kind = .importSource)
    (h : judgeImport files packages m = .ok r) (hrej : r.hallucinated = true) :
    SoleReject m r := by
  -- No such package, one that passes, or a part of one that is not exported.
  rcases judgeImport_cases h with ⟨-, rfl⟩ | ⟨-, rfl | ⟨suggestion, rfl⟩⟩
  · exact ⟨.packageNotFound, _, rfl, hkind⟩
  · cases hrej
  · exact ⟨.subpathNotExported, suggestion, rfl, hkind⟩

theorem nodup_targets_analyzeImports {plan : List Char} {files : FileSystem} {packages : Path}
    {refs : List Reference} (h : analyzeImports plan files packages = .ok refs) :
    ((rejected refs).map Reference.target).Nodup := by
  obtain ⟨judged, hjudged, rfl⟩ := map_eq_ok_iff.mp h
  refine nodup_targets_dedupe (KindTold.of_soleReject fun r hr hrej => ?_)
  obtain ⟨m, hm, hjudge⟩ := exists_mem_of_mapM_eq_ok hjudged hr
  exact ⟨m, soleReject_judgeImport (kind_of_mem_importMentions hm) hjudge hrej⟩

/-! ### Names and members -/

theorem soleReject_judgeMember {api : Api} {b : Binding} {m : Mention} (hkind : m.kind = .member)
    (hrej : (judgeMember api b m).hallucinated = true) : SoleReject m (judgeMember api b m) := by
  unfold judgeMember at hrej ⊢
  split at hrej
  · split at hrej
    · cases hrej
    · exact SoleReject.of_ite hkind hrej
  · exact SoleReject.of_ite hkind hrej

theorem kind_of_mem_memberMentions {plan : List Char} {bound : List Binding} {m : Mention}
    (h : m ∈ memberMentions plan bound) : m.kind = .member := by
  obtain ⟨found, -, hm⟩ := List.mem_filterMap.mp (Text.mem_of_mem_firstPerKey _ h)
  unfold memberMention? at hm
  simp only at hm
  split at hm
  · obtain rfl := Option.some.inj hm
    rfl
  · cases hm

theorem nodup_targets_analyzeApi (plan : List Char) (apis : Catalog Api) :
    ((rejected (analyzeApi plan apis)).map Reference.target).Nodup := by
  refine nodup_targets_dedupe (KindTold.of_soleReject fun r hr hrej => ?_)
  -- First the names that are imported, then the members that are used of what is imported whole.
  rcases List.mem_append.mp hr with hr | hr
  · obtain ⟨b, -, hb⟩ := List.mem_filterMap.mp hr
    obtain ⟨api, -, rfl⟩ := Option.map_eq_some_iff.mp hb
    exact ⟨namedImportMention b, SoleReject.of_ite rfl hrej⟩
  · obtain ⟨m, hm, hb⟩ := List.mem_filterMap.mp hr
    obtain ⟨b, -, hb⟩ := Option.bind_eq_some_iff.mp hb
    obtain ⟨api, -, rfl⟩ := Option.map_eq_some_iff.mp hb
    exact ⟨m, soleReject_judgeMember (kind_of_mem_memberMentions hm) hrej⟩

end Packages

/-! ## Routes -/

namespace Routes

theorem kind_of_mem_mentionsBy {patterns : List RoutePattern} {start : String} {plan : List Char}
    {m : Mention} (h : m ∈ mentionsBy patterns start plan) : m.kind = .route := by
  have hmem := (List.mem_filter.mp (Text.mem_of_mem_firstPerKey _ h)).1
  obtain ⟨p, -, hm⟩ := List.mem_flatMap.mp hmem
  obtain ⟨found, -, rfl⟩ := List.mem_map.mp hm
  rfl

theorem kind_of_mem_callMentions {plan : List Char} {m : Mention} (h : m ∈ callMentions plan) :
    m.kind = .route := by
  rcases List.mem_append.mp (Text.mem_of_mem_firstPerKey _ h) with hm | hm
  · exact kind_of_mem_mentionsBy hm
  · obtain ⟨found, -, rfl⟩ := List.mem_map.mp hm
    rfl

theorem soleReject_judgeApp {index : AppIndex} {m : Mention} (hkind : m.kind = .route)
    (hrej : (judgeApp index m).hallucinated = true) : SoleReject m (judgeApp index m) := by
  -- A route is mentioned also where its method is rejected.
  unfold judgeApp at hrej ⊢
  split at hrej
  · exact ⟨.route, _, rfl, hkind⟩
  · split at hrej
    · cases hrej
    · exact SoleReject.of_ite hkind hrej

theorem soleReject_judgeCall {index : CallIndex} {m : Mention} (hkind : m.kind = .route)
    (hrej : (judgeCall index m).hallucinated = true) : SoleReject m (judgeCall index m) := by
  unfold judgeCall at hrej ⊢
  split at hrej
  · exact ⟨.route, _, rfl, hkind⟩
  · simp only at hrej ⊢
    split at hrej
    · cases hrej
    · exact SoleReject.of_ite hkind hrej

theorem nodup_targets_analyzeApp (plan : List Char) (index : AppIndex) :
    ((rejected (analyzeApp plan index)).map Reference.target).Nodup := by
  refine nodup_targets_dedupe (KindTold.of_soleReject fun r hr hrej => ?_)
  obtain ⟨m, hm, rfl⟩ := List.mem_map.mp hr
  exact ⟨m, soleReject_judgeApp (kind_of_mem_mentionsBy hm) hrej⟩

theorem nodup_targets_analyzeCall (plan : List Char) (index : CallIndex) :
    ((rejected (analyzeCall plan index)).map Reference.target).Nodup := by
  refine nodup_targets_dedupe (KindTold.of_soleReject fun r hr hrej => ?_)
  obtain ⟨m, hm, rfl⟩ := List.mem_map.mp hr
  exact ⟨m, soleReject_judgeCall (kind_of_mem_callMentions hm) hrej⟩

end Routes

end PlanAudit
