import PlanAudit.Proofs.Catalog
import PlanAudit.Proofs.Checker.Kinds
import PlanAudit.Proofs.Checker.WellFormed
import PlanAudit.Proofs.Prisma.Passes
import PlanAudit.Proofs.Routes.Instances

/-!
# Suggestions are sound

A rejected reference may come with a suggestion: another name, a list of all names there are, or
the hint that a field is no relation.  A name that is suggested is not the rejected one, and the
same reference with it in the place of the rejected name is not rejected again for the same reason;
a name in a list is accepted.  Names are suggested from other collections than those that decide:
from variables where tables are looked up, from fields that are relations where any field is looked
up by name.  They agree because of how the collections are made from a project.

## Main definitions

* `Mention.rejectedName`, `Mention.substitute`: the name that a category is about, and the mention
  with another one in its place
* `SoundAdvice`: what may be suggested
* `GroundTruth.judge?`: the judgement of one mention
* `GroundTruth.OfProject`: what is read off a project by the domains that suggest names it defines

## Main results

* `Prisma.judged_judge?`, `Sql.judged_judge?`, …: the suggestions of each domain
* `GroundTruth.suggestions_sound`: the suggestions of all of them
-/

namespace PlanAudit

open Text

/-! ## Other names -/

namespace Mention

/-- The name that a rejection for the category is about. -/
def rejectedName (m : Mention) : Category → String
  | .model | .table | .type | .route => m.ownerName
  | .httpMethod => m.method.getD ""
  | _ => m.memberName

/-- The mention with another name in the place of the rejected one. -/
def substitute (m : Mention) (name : String) : Category → Mention
  | .model => { m with raw := Prisma.clientOf m.raw ++ "." ++ name, owner := some name }
  | .table | .type | .route => { m with owner := some name }
  | .httpMethod => { m with method := some name }
  | .envVariable => { m with raw := name, name := some name }
  | _ => { m with name := some name }

/-- The name as a suggestion shows it: a model with the client in front. -/
def shownName (m : Mention) (name : String) : Category → String
  | .model => Prisma.clientOf m.raw ++ "." ++ name
  | _ => name

end Mention

/-- The word for the names that a hint of the category lists. -/
def Category.listed? : Category → Option String
  | .httpMethod => some "methods"
  | .member => some "members"
  | .wrongRelation => some "relations"
  | _ => none

/-- What may be suggested for a mention that is rejected for a category. -/
inductive SoundAdvice (judge : Mention → Option Reference) (m : Mention) : Category → String → Prop
  /-- Another name, with which the mention is not rejected for this category. -/
  | name {c : Category} {name : String} {r : Reference} (ne : name ≠ m.rejectedName c)
      (judged : judge (m.substitute name c) = some r) (other : r.category ≠ some c) :
      SoundAdvice judge m c (m.shownName name c)
  /-- A list of names with which the mention is accepted. -/
  | list (c : Category) (word : String) (names : List String) (listed : c.listed? = some word)
      (accepted : ∀ name ∈ names,
        judge (m.substitute name c) = some (m.substitute name c).accept) :
      SoundAdvice judge m c ("valid " ++ word ++ ": " ++ commaList names)
  /-- The hint that a field is no relation. -/
  | notRelation :
      SoundAdvice judge m .wrongRelation (m.memberName ++ " is not a relation field")

/-- The reference is the judgement of the mention, and what it suggests is sound. -/
structure Judged (judge : Mention → Option Reference) (m : Mention) (r : Reference) : Prop where
  toMention : r.toMention = m
  advice : ∀ s, r.suggestion = some s → ∃ c, r.category = some c ∧ SoundAdvice judge m c s

section Judged

variable {judge : Mention → Option Reference} {m : Mention} {c : Category}

theorem judged_accept : Judged judge m m.accept := ⟨rfl, nofun⟩

theorem judged_reject {suggestion : Option String}
    (h : ∀ s, suggestion = some s → SoundAdvice judge m c s) :
    Judged judge m (m.reject c suggestion) :=
  ⟨rfl, fun s hs => ⟨c, rfl, h s hs⟩⟩

theorem judged_ite {p : Prop} [Decidable p] {suggestion : Option String}
    (h : ¬p → ∀ s, suggestion = some s → SoundAdvice judge m c s) :
    Judged judge m (if p then m.accept else m.reject c suggestion) := by
  split
  · exact judged_accept
  · exact judged_reject (h ‹_›)

/-- A name with which the mention is accepted may be suggested. -/
theorem SoundAdvice.of_accept {name : String} (hne : name ≠ m.rejectedName c)
    (h : judge (m.substitute name c) = some (m.substitute name c).accept) :
    SoundAdvice judge m c (m.shownName name c) :=
  .name hne h nofun

theorem mem_of_suggest {name found : String} {candidates : List String}
    (h : suggest name candidates = some found) : found ∈ candidates :=
  List.mem_of_find?_eq_some h

theorem contains_of_suggest {α : Type} {catalog : Catalog α} {name found : String}
    (h : suggest name catalog.names = some found) : catalog.contains found = true :=
  (catalog.mem_names_iff found).mp (mem_of_suggest h)

theorem ne_of_contains {α : Type} {catalog : Catalog α} {name other : String}
    (hname : catalog.contains name = true) (hother : ¬catalog.contains other = true) :
    name ≠ other :=
  fun heq => hother (heq ▸ hname)

end Judged

/-! ## Client calls -/

namespace Prisma

/-- The fields of the models are listed under their names. -/
structure Schema.Keyed (schema : Schema) : Prop where
  name_eq : ∀ accessor model, contextModel? schema accessor = some model →
    ∀ name field, model.fields.find? name = some field → field.name = name

theorem keyed_parse (content : List Char) : (Schema.parse content).Keyed := by
  constructor
  intro accessor model hmodel name field hfield
  -- Wherever the model is found, it is one of those that the schema lists.
  have hlisted : ∃ key, (Schema.parse content).models.find? key = some model := by
    have hbehind : ∀ {a : String}, (Schema.parse content).modelFor? a = some model →
        ∃ key, (Schema.parse content).models.find? key = some model := fun h =>
      let ⟨key, _, hkey⟩ := Option.bind_eq_some_iff.mp h
      ⟨key, hkey⟩
    rcases Option.or_eq_some_iff.mp hmodel with h | ⟨-, h⟩
    · exact hbehind h
    · obtain ⟨found, -, h⟩ := Option.bind_eq_some_iff.mp h
      exact hbehind h
  obtain ⟨key, hkey⟩ := hlisted
  rw [parse_eq_ofModels] at hkey
  obtain ⟨model', hmem, heq⟩ := List.mem_map.mp (Catalog.mem_of_find?_ofList hkey)
  obtain ⟨block, -, rfl⟩ := List.mem_map.mp hmem
  obtain ⟨-, rfl⟩ := Prod.mk.inj heq
  obtain ⟨field', -, heq⟩ := List.mem_map.mp (Catalog.mem_of_find?_ofList hfield)
  obtain ⟨rfl, rfl⟩ := Prod.mk.inj heq
  rfl

variable {schema : Schema} {m : Mention}

theorem judged_judgeModel (hkind : m.kind = .model) :
    Judged (judge? schema) m (judgeModel schema m) := by
  refine judged_ite fun hrejected s hs => ?_
  obtain ⟨found, hfound, rfl⟩ := Option.map_eq_some_iff.mp hs
  have hlisted := contains_of_suggest hfound
  refine .of_accept (ne_of_contains hlisted hrejected) ?_
  have hsame : (m.substitute found .model).kind = .model := hkind
  rw [judge?, hsame]
  exact congrArg some (if_pos hlisted)

theorem judged_judgeField {model : Model} (hkind : m.kind = .field)
    (hmodel : contextModel? schema m.ownerName = some model) :
    Judged (judge? schema) m (judgeField model m) := by
  refine judged_ite fun hrejected s hs => ?_
  have hlisted := contains_of_suggest hs
  refine .of_accept (ne_of_contains hlisted hrejected) ?_
  have hsame : (m.substitute s .field).kind = .field := hkind
  have howner : contextModel? schema (m.substitute s .field).ownerName = some model := hmodel
  rw [judge?, hsame]
  simp only [howner, Option.map_some]
  exact congrArg some (if_pos hlisted)

/-- A relation of the model is accepted as such. -/
theorem judgeRelation_of_mem {model : Model} {name : String}
    (hkeyed : ∀ name field, model.fields.find? name = some field → field.name = name)
    (h : name ∈ model.relations.map (·.name)) (m : Mention) :
    judgeRelation model (m.substitute name .wrongRelation) =
      (m.substitute name .wrongRelation).accept := by
  obtain ⟨field, hfield, rfl⟩ := List.mem_map.mp h
  obtain ⟨hmem, hrelation⟩ := List.mem_filter.mp hfield
  obtain ⟨⟨key, _⟩, hentry, rfl⟩ := List.mem_map.mp hmem
  have hfound := Catalog.find?_eq_some_iff.mpr hentry
  obtain rfl := hkeyed key _ hfound
  have hname : ∀ n, (m.substitute n .wrongRelation).memberName = n := fun _ => rfl
  rw [judgeRelation, hname, hfound]
  exact if_pos hrelation

theorem judged_judgeRelation {model : Model} (hkeyed : schema.Keyed)
    (hkind : m.kind ≠ .model ∧ m.kind ≠ .method ∧ m.kind ≠ .field)
    (hmodel : contextModel? schema m.ownerName = some model) :
    Judged (judge? schema) m (judgeRelation model m) := by
  have haccept : ∀ name ∈ model.relations.map (·.name),
      judge? schema (m.substitute name .wrongRelation) =
        some (m.substitute name .wrongRelation).accept := by
    intro name hname
    have howner : contextModel? schema (m.substitute name .wrongRelation).ownerName = some model :=
      hmodel
    have hrelation : judge? schema (m.substitute name .wrongRelation) =
        (contextModel? schema (m.substitute name .wrongRelation).ownerName).map
          (judgeRelation · (m.substitute name .wrongRelation)) := by
      unfold judge?
      split
      · exact absurd ‹_› hkind.1
      · exact absurd ‹_› hkind.2.1
      · exact absurd ‹_› hkind.2.2
      · rfl
    rw [hrelation, howner, Option.map_some,
      judgeRelation_of_mem (hkeyed.name_eq _ model hmodel) hname]
  unfold judgeRelation
  split
  · rename_i hmissing
    refine judged_reject fun s hs => ?_
    unfold relationSuggestion at hs
    simp only at hs
    split at hs
    · rename_i found hfound
      obtain rfl := Option.some.inj hs
      refine .of_accept (fun heq => ?_) (haccept _ (mem_of_suggest hfound))
      -- The suggested relation is a field of the model, the rejected name is none.
      obtain ⟨field, hfield, hname⟩ := List.mem_map.mp (mem_of_suggest hfound)
      obtain ⟨⟨key, _⟩, hentry, rfl⟩ := List.mem_map.mp (List.mem_filter.mp hfield).1
      have hlisted := Catalog.find?_eq_some_iff.mpr hentry
      have hkey := hkeyed.name_eq _ model hmodel _ _ hlisted
      have hrejected : m.memberName = key := heq.symm.trans (hname.symm.trans hkey)
      rw [hrejected, hlisted] at hmissing
      cases hmissing
    · split at hs
      · cases hs
      · obtain rfl := Option.some.inj hs
        exact .list .wrongRelation "relations" _ rfl haccept
  · refine judged_ite fun _ s hs => ?_
    obtain rfl := Option.some.inj hs
    exact .notRelation

/-- **The suggestions for client calls are sound.** -/
theorem judged_judge? (hkeyed : schema.Keyed) {r : Reference} (h : judge? schema m = some r) :
    Judged (judge? schema) m r := by
  have hr := h
  unfold judge? at hr
  -- A model, a method, a field, or else a relation.
  split at hr
  · obtain rfl := Option.some.inj hr
    exact judged_judgeModel ‹_›
  · obtain rfl := Option.some.inj hr
    exact judged_ite fun _ s hs => nomatch hs
  · obtain ⟨model, hmodel, rfl⟩ := Option.map_eq_some_iff.mp hr
    exact judged_judgeField ‹_› hmodel
  · obtain ⟨model, hmodel, rfl⟩ := Option.map_eq_some_iff.mp hr
    exact judged_judgeRelation hkeyed ⟨‹_›, ‹_›, ‹_›⟩ hmodel

end Prisma

/-! ## Tables and columns -/

namespace Sql

/-- Every variable is bound to a table that is listed. -/
structure Schema.Bound (schema : Schema) : Prop where
  contains : ∀ v table, schema.tableOf.find? v = some table → schema.tables.contains table = true

theorem Schema.Bound.addBuilt {schema : Schema} (h : schema.Bound) (t : Table) :
    (schema.addBuilt t).Bound := by
  constructor
  intro v table hv
  unfold Schema.addBuilt at hv
  simp only at hv
  refine Catalog.contains_alter.mpr ?_
  split at hv
  · rename_i other _
    by_cases hvar : v = other
    · subst hvar
      rw [Catalog.find?_insert_self] at hv
      exact Or.inr (Option.some.inj hv).symm
    · rw [Catalog.find?_insert_of_ne _ hvar] at hv
      exact Or.inl (h.contains v table hv)
  · exact Or.inl (h.contains v table hv)

theorem Schema.Bound.addStated {schema : Schema} (h : schema.Bound) (t : Table) :
    (schema.addStated t).Bound :=
  ⟨fun v table hv => Catalog.contains_alter.mpr (Or.inl (h.contains v table hv))⟩

theorem bound_ofProject (p : Project) (tree : FileTree) : (Schema.ofProject p tree).Bound := by
  unfold Schema.ofProject Schema.ofFiles
  refine List.foldlRecOn _ _ ?_ fun _ h t _ => h.addStated t
  refine List.foldlRecOn _ _ ?_ fun _ h t _ => h.addBuilt t
  exact ⟨nofun⟩

variable {schema : Schema} {m : Mention}

theorem exists_resolve? (hbound : schema.Bound) {name : String}
    (h : schema.tables.contains name = true ∨ schema.tableOf.contains name = true) :
    ∃ table, schema.resolve? name = some table := by
  unfold Schema.resolve?
  cases hfound : schema.tables.find? name with
  | some table => exact ⟨table, rfl⟩
  | none =>
    -- There is no table of the name, so it is that of a variable.
    rcases h with h | h
    · rw [Catalog.contains, hfound] at h
      cases h
    · obtain ⟨other, hother⟩ := Option.isSome_iff_exists.mp h
      obtain ⟨table, htable⟩ := Option.isSome_iff_exists.mp (hbound.contains _ _ hother)
      exact ⟨table, by rw [hother, Option.bind_some, htable]⟩

theorem contains_of_suggestTable {name found : String}
    (h : suggestTable name schema = some found) :
    schema.tables.contains found = true ∨ schema.tableOf.contains found = true := by
  unfold suggestTable at h
  split at h
  · exact Or.inr (contains_of_suggest h)
  · exact Or.inr (contains_of_suggest h)
  · rename_i table _ htable
    obtain rfl := Option.some.inj h
    exact Or.inl (contains_of_suggest htable)

/-- What is said of a table that is there is not that it is missing. -/
theorem exists_judge?_of_resolve? {table : Table}
    (h : schema.resolve? m.ownerName = some table) :
    ∃ r, judge? schema m = some r ∧ r.category ≠ some .table := by
  unfold judge?
  rw [h]
  simp only
  split
  · exact ⟨_, rfl, nofun⟩
  · split
    · exact ⟨_, rfl, nofun⟩
    · exact ⟨_, rfl, fun heq => nomatch Option.some.inj heq⟩

/-- **The suggestions for tables and columns are sound.** -/
theorem judged_judge? (hbound : schema.Bound) {r : Reference} (h : judge? schema m = some r) :
    Judged (judge? schema) m r := by
  unfold judge? at h
  split at h
  · rename_i hmissing
    split at h
    · cases h
    · obtain rfl := Option.some.inj h
      refine judged_reject fun s hs => ?_
      obtain ⟨table, htable⟩ := exists_resolve? hbound (contains_of_suggestTable hs)
      have hother : schema.resolve? (m.substitute s .table).ownerName = some table := htable
      obtain ⟨r, hjudged, hcategory⟩ := exists_judge?_of_resolve? hother
      refine .name (fun heq => ?_) hjudged hcategory
      rw [heq] at htable
      cases hmissing.symm.trans htable
  · rename_i table htable
    split at h
    · obtain rfl := Option.some.inj h
      exact judged_accept
    · rename_i column hcolumn
      split at h
      · obtain rfl := Option.some.inj h
        exact judged_accept
      · rename_i hrejected
        obtain rfl := Option.some.inj h
        refine judged_reject fun s hs => ?_
        have hlisted := contains_of_suggest hs
        have hname : m.memberName = column := by rw [Mention.memberName, hcolumn, Option.getD_some]
        rw [← hname] at hrejected
        refine .of_accept (ne_of_contains hlisted hrejected) ?_
        have hsame : schema.resolve? (m.substitute s .column).ownerName = some table := htable
        have hother : (m.substitute s .column).name = some s := rfl
        unfold judge?
        rw [hsame]
        simp only [hother, if_pos hlisted]

end Sql

/-! ## Environment variables -/

/-- A variable is mentioned by its name. -/
theorem Env.name_of_mem_mentions {plan : List Char} {m : Mention} (h : m ∈ mentions plan) :
    m.name = some m.raw := by
  have hmem := (List.mem_filter.mp (mem_of_mem_firstPerKey _ h)).1
  obtain ⟨idiom, -, hm⟩ := List.mem_flatMap.mp hmem
  obtain ⟨found, -, rfl⟩ := List.mem_map.mp hm
  rfl

/-- **The suggestions for environment variables are sound.** -/
theorem Env.judged_judge {index : Index} {m : Mention} (hname : m.name = some m.raw) :
    Judged (fun m => some (judge index m)) m (judge index m) := by
  have hsame : ∀ m : Mention, m.name = some m.raw → judge index m =
      if index.definedIn.contains m.raw then m.accept
      else m.reject .envVariable (suggest m.raw index.definedIn.names) := by
    intro m hm
    unfold judge
    rw [hm]
    simp only [ite_self]
  rw [hsame m hname]
  refine judged_ite fun hrejected s hs => ?_
  have hlisted := contains_of_suggest hs
  have hmember : m.memberName = m.raw := by rw [Mention.memberName, hname, Option.getD_some]
  rw [← hmember] at hrejected
  refine .of_accept (ne_of_contains hlisted hrejected) ?_
  rw [hsame (m.substitute s .envVariable) rfl]
  exact congrArg some (if_pos hlisted)

/-! ## Types and members -/

/-- What is said of a type that is declared is not that it is missing. -/
theorem Types.category_judge_of_find? {index : Index} {m : Mention} {d : Declaration}
    (h : index.find? m.ownerName = some d) : (judge index m).category ≠ some .type := by
  unfold judge
  rw [h]
  simp only
  split
  · exact nofun
  · split
    · exact nofun
    · exact fun heq => nomatch Option.some.inj heq

/-- **The suggestions for types and members are sound.** -/
theorem Types.judged_judge {index : Index} {m : Mention} :
    Judged (fun m => some (judge index m)) m (judge index m) := by
  unfold judge
  split
  · rename_i hmissing
    refine judged_reject fun s hs => ?_
    have hlisted := contains_of_suggest hs
    have hrejected : ¬index.contains m.ownerName = true := by
      rw [Catalog.contains, hmissing]
      exact Bool.false_ne_true
    obtain ⟨d, hd⟩ := Option.isSome_iff_exists.mp hlisted
    have howner : index.find? (m.substitute s .type).ownerName = some d := hd
    exact .name (ne_of_contains hlisted hrejected) rfl (category_judge_of_find? howner)
  · rename_i d hd
    split
    · exact judged_accept
    · rename_i member hmember
      have hname : m.memberName = member := by rw [Mention.memberName, hmember, Option.getD_some]
      have haccept : ∀ name ∈ d.members.names,
          some (judge index (m.substitute name .member)) =
            some (m.substitute name .member).accept := by
        intro name hlisted
        have howner : index.find? (m.substitute name .member).ownerName = some d := hd
        have hother : (m.substitute name .member).name = some name := rfl
        unfold judge
        rw [howner]
        simp only [hother, (d.members.mem_names_iff name).mp hlisted, Bool.or_true, if_true]
      refine judged_ite fun hrejected s hs => ?_
      have hmissing : ¬d.members.contains member = true := fun h => hrejected (by simp [h])
      unfold memberSuggestion at hs
      split at hs
      · rename_i found hfound
        obtain rfl := Option.some.inj hs
        rw [← hname] at hmissing
        exact .of_accept (ne_of_contains (contains_of_suggest hfound) hmissing)
          (haccept _ (mem_of_suggest hfound))
      · split at hs
        · obtain rfl := Option.some.inj hs
          exact .list .member "members" _ rfl haccept
        · cases hs

/-! ## Routes -/

namespace Routes

variable {m : Mention}

theorem mem_of_suggestRoute {skip : Bool} {url found : String} {routes : List String}
    (h : suggestRoute skip url routes = some found) : found ∈ routes := by
  unfold suggestRoute at h
  split at h
  · cases h
  · exact List.mem_of_find?_eq_some h

/-- **The suggestions for routes of the application router are sound.** -/
theorem judged_judgeApp {index : AppIndex} :
    Judged (fun m => some (judgeApp index m)) m (judgeApp index m) := by
  unfold judgeApp
  split
  · rename_i hmissing
    refine judged_reject fun s hs => ?_
    -- The suggested route is listed, so that it is found under its own URL.
    have hlisted := (index.mem_names_iff s).mp (mem_of_suggestRoute hs)
    obtain ⟨route, hroute⟩ := Option.isSome_iff_exists.mp hlisted
    have hfound : index.match? s = some route := by rw [AppIndex.match?, hroute]
    have howner : index.match? (m.substitute s .route).ownerName = some route := hfound
    refine .name (fun heq => ?_) rfl (judgeApp_of_found howner).1
    rw [heq] at hfound
    cases hmissing.symm.trans hfound
  · rename_i route hroute
    split
    · exact judged_accept
    · refine judged_ite fun _ s hs => ?_
      obtain rfl := Option.some.inj hs
      refine .list .httpMethod "methods" _ rfl fun method hmethod => ?_
      have howner : index.match? (m.substitute method .httpMethod).ownerName = some route := hroute
      have hother : (m.substitute method .httpMethod).method = some method := rfl
      rw [howner]
      simp only [hother, if_pos (Or.inr (Or.inr hmethod))]

/-- What is said of a route that is found is not that it is missing. -/
theorem category_judgeCall_of_match? {index : CallIndex} {url : String}
    (h : index.match? m.ownerName = some url) : (judgeCall index m).category ≠ some .route := by
  unfold judgeCall
  rw [h]
  simp only
  split
  · exact nofun
  · split
    · exact nofun
    · exact fun heq => nomatch Option.some.inj heq

/-- **The suggestions for routes of call-based routers are sound.** -/
theorem judged_judgeCall {index : CallIndex} :
    Judged (fun m => some (judgeCall index m)) m (judgeCall index m) := by
  unfold judgeCall
  split
  · rename_i hmissing
    refine judged_reject fun s hs => ?_
    have hlisted := (index.routes.mem_names_iff s).mp (mem_of_suggestRoute hs)
    have hfound : index.match? s = some s := by rw [CallIndex.match?, if_pos hlisted]
    have howner : index.match? (m.substitute s .route).ownerName = some s := hfound
    refine .name (fun heq => ?_) rfl (category_judgeCall_of_match? howner)
    rw [heq] at hfound
    cases hmissing.symm.trans hfound
  · rename_i url hurl
    simp only
    split
    · exact judged_accept
    · refine judged_ite fun _ s hs => ?_
      obtain rfl := Option.some.inj hs
      refine .list .httpMethod "methods" _ rfl fun method hmethod => ?_
      have howner : index.match? (m.substitute method .httpMethod).ownerName = some url := hurl
      have hother : (m.substitute method .httpMethod).method = some method := rfl
      rw [howner]
      simp only [hother, if_pos (Or.inr (Or.inl hmethod))]

end Routes

/-! ## Supabase queries -/

namespace Supabase

variable {schema : Schema} {m : Mention}

theorem judged_judgeFunction (hkind : m.kind = .function) :
    Judged (judge? schema) m (judgeFunction schema m) := by
  refine judged_ite fun hrejected s hs => ?_
  have hlisted := contains_of_suggest hs
  refine .of_accept (ne_of_contains hlisted hrejected) ?_
  have hsame : (m.substitute s .function).kind = .function := hkind
  rw [judge?, if_pos hsame]
  exact congrArg some (if_pos hlisted)

theorem category_judgeColumn (table : Table) : (judgeColumn table m).category ≠ some .table := by
  unfold judgeColumn
  split
  · exact nofun
  · split
    · exact nofun
    · exact fun heq => nomatch Option.some.inj heq

theorem judged_judgeColumn {table : Table} (hkind : m.kind ≠ .function)
    (htable : schema.tables.find? m.ownerName = some table) :
    Judged (judge? schema) m (judgeColumn table m) := by
  unfold judgeColumn
  split
  · exact judged_accept
  · rename_i column hcolumn
    have hname : m.memberName = column := by rw [Mention.memberName, hcolumn, Option.getD_some]
    refine judged_ite fun hrejected s hs => ?_
    have hlisted := contains_of_suggest hs
    rw [← hname] at hrejected
    refine .of_accept (ne_of_contains hlisted hrejected) ?_
    have hsame : (m.substitute s .column).kind ≠ .function := hkind
    have howner : schema.tables.find? (m.substitute s .column).ownerName = some table := htable
    have hother : (m.substitute s .column).name = some s := rfl
    rw [judge?, if_neg hsame, howner]
    simp only [judgeColumn, hother, if_pos hlisted]

/-- **The suggestions for queries are sound.** -/
theorem judged_judge? {r : Reference} (h : judge? schema m = some r) :
    Judged (judge? schema) m r := by
  unfold judge? at h
  split at h
  · obtain rfl := Option.some.inj h
    exact judged_judgeFunction ‹_›
  · rename_i hkind
    split at h
    · obtain rfl := Option.some.inj h
      exact judged_judgeColumn hkind ‹_›
    · rename_i hmissing
      split at h
      · obtain rfl := Option.some.inj h
        refine judged_reject fun s hs => ?_
        have hlisted := contains_of_suggest hs
        have hrejected : ¬schema.tables.contains m.ownerName = true := by
          rw [Catalog.contains, hmissing]
          exact Bool.false_ne_true
        obtain ⟨table, htable⟩ := Option.isSome_iff_exists.mp hlisted
        refine .name (r := judgeColumn table (m.substitute s .table))
          (ne_of_contains hlisted hrejected) ?_ (category_judgeColumn table)
        have hsame : (m.substitute s .table).kind ≠ .function := hkind
        have howner : schema.tables.find? (m.substitute s .table).ownerName = some table := htable
        rw [judge?, if_neg hsame, howner]
      · cases h

end Supabase

/-! ## Names and members of packages -/

namespace Packages

/-- The judgement of an imported name or of a member, given what names are bound to. -/
def judgeApi? (apis : Catalog Api) (bound : List Binding) (m : Mention) : Option Reference :=
  if m.kind = .namedImport then (apis.find? m.ownerName).map (judgeNamedImport · m)
  else
    (bound.find? fun b => b.localName == m.ownerName).bind fun b =>
      (apis.find? b.package).map fun api => judgeMember api b m

variable {apis : Catalog Api} {bound : List Binding} {m : Mention}

theorem judged_judgeNamedImport {api : Api} (hkind : m.kind = .namedImport)
    (hapi : apis.find? m.ownerName = some api) :
    Judged (judgeApi? apis bound) m (judgeNamedImport api m) := by
  refine judged_ite fun hrejected s hs => ?_
  have hlisted : api.exports.contains s = true := List.contains_iff_mem.mpr (mem_of_suggest hs)
  have hne : s ≠ m.memberName := fun heq => hrejected (heq ▸ hlisted)
  refine .of_accept hne ?_
  have hsame : (m.substitute s .namedImport).kind = .namedImport := hkind
  have howner : apis.find? (m.substitute s .namedImport).ownerName = some api := hapi
  rw [judgeApi?, if_pos hsame, howner]
  exact congrArg some (if_pos hlisted)

theorem judged_judgeMember {api : Api} {b : Binding} (hkind : m.kind ≠ .namedImport)
    (hb : bound.find? (fun b => b.localName == m.ownerName) = some b)
    (hapi : apis.find? b.package = some api) :
    Judged (judgeApi? apis bound) m (judgeMember api b m) := by
  have hsame : ∀ s, judgeApi? apis bound (m.substitute s .member) =
      some (judgeMember api b (m.substitute s .member)) := by
    intro s
    have hother : (m.substitute s .member).kind ≠ .namedImport := hkind
    have howner : bound.find? (fun b => b.localName == (m.substitute s .member).ownerName) =
        some b := hb
    rw [judgeApi?, if_neg hother, howner, Option.bind_some, hapi, Option.map_some]
  have hname : ∀ s, (m.substitute s .member).memberName = s := fun _ => rfl
  unfold judgeMember
  split
  · rename_i hform
    split
    · exact judged_accept
    · rename_i members hmembers
      refine judged_ite fun hrejected s hs => ?_
      have hlisted := contains_of_suggest hs
      have hmissing : ¬members.contains m.memberName = true := fun h => hrejected (by simp [h])
      refine .of_accept (ne_of_contains hlisted hmissing) ?_
      rw [hsame]
      unfold judgeMember
      simp only [hform, hmembers, hname, hlisted, Bool.or_true, if_true]
  · rename_i hform
    refine judged_ite fun hrejected s hs => ?_
    have hlisted : api.exports.contains s = true := List.contains_iff_mem.mpr (mem_of_suggest hs)
    refine .of_accept (fun heq => ?_) ?_
    · rw [heq] at hlisted
      exact hrejected (Bool.or_eq_true_iff.mpr (Or.inl hlisted))
    · rw [hsame]
      unfold judgeMember
      split
      · exact absurd ‹_› hform
      · simp only [hname, hlisted, Bool.true_or, if_true]

/-- **The suggestions for imported names and for members are sound.** -/
theorem judged_judgeApi? {r : Reference} (h : judgeApi? apis bound m = some r) :
    Judged (judgeApi? apis bound) m r := by
  unfold judgeApi? at h
  split at h
  · obtain ⟨api, hapi, rfl⟩ := Option.map_eq_some_iff.mp h
    exact judged_judgeNamedImport ‹_› hapi
  · obtain ⟨b, hb, h⟩ := Option.bind_eq_some_iff.mp h
    obtain ⟨api, hapi, rfl⟩ := Option.map_eq_some_iff.mp h
    exact judged_judgeMember ‹_› hb hapi

theorem exists_judgeApi?_of_mem {plan : List Char} {r : Reference}
    (h : r ∈ judgedImports apis (bindings plan) ++ judgedMembers apis (bindings plan) plan) :
    ∃ m, judgeApi? apis (bindings plan) m = some r := by
  rcases List.mem_append.mp h with h | h
  · obtain ⟨b, -, hb⟩ := List.mem_filterMap.mp h
    refine ⟨namedImportMention b, ?_⟩
    rw [judgeApi?, if_pos (by rfl)]
    exact hb
  · obtain ⟨m, hm, hb⟩ := List.mem_filterMap.mp h
    have hkind : m.kind ≠ .namedImport := by
      rw [kind_of_mem_memberMentions hm]
      exact nofun
    exact ⟨m, by rwa [judgeApi?, if_neg hkind]⟩

end Packages

/-! ## The domains that suggest names -/

namespace GroundTruth

/-- The judgement of one mention of a plan, if it is judged. -/
def judge? (plan : List Char) : GroundTruth → Mention → Option Reference
  | paths tree allowed => fun m => some (Paths.judge tree plan allowed m)
  | prisma schema => Prisma.judge? schema
  | sql schema => Sql.judge? schema
  | imports files packages => fun m => (Packages.judgeImport files packages m).toOption
  | env index => fun m => some (Env.judge index m)
  | types index => fun m => some (Types.judge index m)
  | appRoutes index => fun m => some (Routes.judgeApp index m)
  | supabase schema => Supabase.judge? schema
  | callRoutes index => fun m => some (Routes.judgeCall index m)
  | api apis => Packages.judgeApi? apis (Packages.bindings plan)

/-- What the checkers of client calls, tables, variables, types, routes, queries and exports read
off a project. -/
inductive OfProject (p : Project) (tree : FileTree) : GroundTruth → Prop
  | prisma {given : Option String} {place : Path} {schema : Prisma.Schema}
      (found : Prisma.schemaPlace? p given = some place)
      (loaded : Prisma.Schema.load? p.files place = some schema) : OfProject p tree (prisma schema)
  | sql : OfProject p tree (sql (Sql.Schema.ofProject p tree))
  | env : OfProject p tree (env (Env.Index.ofProject p))
  | types : OfProject p tree (types (Types.Index.ofProject p tree))
  | appRoutes : OfProject p tree (appRoutes (Routes.AppIndex.ofProject p tree))
  | supabase {schema : Supabase.Schema} (found : Supabase.Schema.ofProject? p tree = some schema) :
      OfProject p tree (supabase schema)
  | callRoutes {index : Routes.CallIndex} (read : Routes.CallIndex.ofProject p tree = .ok index) :
      OfProject p tree (callRoutes index)
  | api {names : List String} {cache : Packages.ApiCache} {apis : Catalog Packages.Api}
      (read : (Packages.resolveApis p.files p.packages names cache).1 = .ok apis) :
      OfProject p tree (api apis)

variable {p : Project} {tree : FileTree} {truth : GroundTruth} {plan : List Char}
  {refs : List Reference}

theorem exists_judged (hproject : truth.OfProject p tree) (h : truth.judgements plan = .ok refs) :
    ∀ r ∈ refs, ∃ m, truth.judge? plan m = some r ∧ Judged (truth.judge? plan) m r := by
  intro r hr
  cases hproject with
  | prisma _ loaded =>
    obtain rfl := Except.ok.inj h
    obtain ⟨m, -, hjudge⟩ := List.mem_filterMap.mp (mem_of_mem_firstPerKey _ hr)
    obtain ⟨content, -, rfl⟩ := Option.map_eq_some_iff.mp loaded
    exact ⟨m, hjudge, Prisma.judged_judge? (Prisma.keyed_parse content) hjudge⟩
  | sql =>
    obtain rfl := Except.ok.inj h
    obtain ⟨m, -, hjudge⟩ := List.mem_filterMap.mp (mem_of_mem_firstPerKey _ hr)
    exact ⟨m, hjudge, Sql.judged_judge? (Sql.bound_ofProject p tree) hjudge⟩
  | env =>
    obtain rfl := Except.ok.inj h
    obtain ⟨m, hm, rfl⟩ := List.mem_map.mp (mem_of_mem_firstPerKey _ hr)
    exact ⟨m, rfl, Env.judged_judge (Env.name_of_mem_mentions hm)⟩
  | types =>
    obtain rfl := Except.ok.inj h
    obtain ⟨m, -, rfl⟩ := List.mem_map.mp (mem_of_mem_firstPerKey _ hr)
    exact ⟨m, rfl, Types.judged_judge⟩
  | appRoutes =>
    obtain rfl := Except.ok.inj h
    obtain ⟨m, -, rfl⟩ := List.mem_map.mp (mem_of_mem_firstPerKey _ hr)
    exact ⟨m, rfl, Routes.judged_judgeApp⟩
  | supabase =>
    obtain rfl := Except.ok.inj h
    obtain ⟨m, -, hjudge⟩ := List.mem_filterMap.mp (mem_of_mem_firstPerKey _ hr)
    exact ⟨m, hjudge, Supabase.judged_judge? hjudge⟩
  | callRoutes =>
    obtain rfl := Except.ok.inj h
    obtain ⟨m, -, rfl⟩ := List.mem_map.mp (mem_of_mem_firstPerKey _ hr)
    exact ⟨m, rfl, Routes.judged_judgeCall⟩
  | api =>
    obtain rfl := Except.ok.inj h
    obtain ⟨m, hjudge⟩ := Packages.exists_judgeApi?_of_mem (mem_of_mem_firstPerKey _ hr)
    exact ⟨m, hjudge, Packages.judged_judgeApi? hjudge⟩

/-- **Suggestions are sound**: whatever a project and a plan contain, every reference of the plan is
the judgement of its own mention, and a suggestion that comes with it is another name, with which
the mention is not rejected for the same reason, or a list of names with which it is accepted, or
the hint that a field is no relation. -/
theorem suggestions_sound (hproject : truth.OfProject p tree)
    (h : truth.judgements plan = .ok refs) :
    ∀ r ∈ refs, truth.judge? plan r.toMention = some r ∧
      ∀ s, r.suggestion = some s →
        ∃ c, r.category = some c ∧ SoundAdvice (truth.judge? plan) r.toMention c s := by
  intro r hr
  obtain ⟨m, hjudge, hmention, hadvice⟩ := exists_judged hproject h r hr
  subst hmention
  exact ⟨hjudge, hadvice⟩

/-- A project with one table, which is bound to a variable of another name. -/
def renamed : Project where
  files := ⟨[(["db.ts"], .file (.text
    "export const members = pgTable('people', \x7b id: serial('id') \x7d);\n".toList))]⟩
  directory := []

/-- The tables of the project. -/
def renamedTables : GroundTruth := .sql (Sql.Schema.ofProject renamed ⟨["db.ts"]⟩)

/-- A plan that misspells the variable. -/
def misspelled : List Char := "Call `db.insert(member)`.".toList

/-- The variable is suggested, though only tables are looked up first. -/
theorem suggestions_sound_variable :
    renamedTables.OfProject renamed ⟨["db.ts"]⟩ ∧
      ∃ refs, renamedTables.judgements misspelled = .ok refs ∧
        refs.map (fun r => (r.raw, r.category, r.suggestion)) =
          [("db.insert(member", some .table, some "members")] ∧
        ∀ r ∈ refs, renamedTables.judge? misspelled r.toMention = some r ∧
          ∀ s, r.suggestion = some s → ∃ c, r.category = some c ∧
            SoundAdvice (renamedTables.judge? misspelled) r.toMention c s :=
  ⟨.sql, _, rfl, by decide +kernel, suggestions_sound .sql rfl⟩

end GroundTruth

end PlanAudit
