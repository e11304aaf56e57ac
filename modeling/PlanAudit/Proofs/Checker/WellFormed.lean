import PlanAudit.Checker.Registry
import PlanAudit.Proofs.Fault
import PlanAudit.Proofs.Packages.Judgement
import PlanAudit.Proofs.Text.FirstPerKey

/-!
# Judgements are well formed

A result can be made of judgements only if every rejected reference among them has a category.  The
judgements of the ten domains keep more than that: what exists carries no mark of rejection, and
what is rejected is rejected for a category of its domain.  So no check is lost for want of a
category, and every reference that was judged is counted under exactly one of three heads.

## Main definitions

* `Reference.WellFormed`: what a judgement says fits together
* `GroundTruth`: what a plan is judged against in one of the ten domains
* `GroundTruth.judgements`: the judgements of a plan
* `GroundTruth.categories`: the categories for which the checker of the domain rejects

## Main results

* `Result.ofReferences_of_wellFormed`: well formed judgements have a result, which counts them all
* `GroundTruth.wellFormed_of_mem`: the judgements of every domain are well formed
* `GroundTruth.judgements_wellFormed`: both together
-/

namespace PlanAudit

/-! ## Well formed judgements -/

/-- What a judgement says fits together: it is rejected for one of the categories, or not at all. -/
structure Reference.WellFormed (categories : List Category) (r : Reference) : Prop where
  of_valid : r.valid = true →
    r.category = none ∧ r.suggestion = none ∧ r.intentionalNew = false
  of_rejected : r.valid = false → r.intentionalNew = false →
    ∃ c ∈ categories, r.category = some c

namespace Reference

variable {categories : List Category} {m : Mention}

theorem wellFormed_accept : m.accept.WellFormed categories :=
  ⟨fun _ => ⟨rfl, rfl, rfl⟩, nofun⟩

theorem wellFormed_announce : m.announce.WellFormed categories :=
  ⟨nofun, nofun⟩

theorem wellFormed_reject {c : Category} {s : Option String} (h : c ∈ categories) :
    (m.reject c s).WellFormed categories :=
  ⟨nofun, fun _ _ => ⟨c, h, rfl⟩⟩

theorem wellFormed_ite {p : Prop} [Decidable p] {c : Category} {s : Option String}
    (h : c ∈ categories) : (if p then m.accept else m.reject c s).WellFormed categories := by
  split
  · exact wellFormed_accept
  · exact wellFormed_reject h

theorem wellFormed_dedupe {refs : List Reference} (h : ∀ r ∈ refs, r.WellFormed categories) :
    ∀ r ∈ dedupe refs, r.WellFormed categories :=
  fun r hr => h r (Text.mem_of_mem_firstPerKey evidence hr)

end Reference

/-! ## Results -/

section Result

variable {categories : List Category} {refs : List Reference}

theorem Reference.WellFormed.exists_hallucination {r : Reference} (h : r.WellFormed categories)
    (hrejected : r.hallucinated = true) : ∃ x, Hallucination.ofReference r = .ok x := by
  obtain ⟨hvalid, hnew⟩ := Bool.and_eq_true_iff.mp hrejected
  obtain ⟨c, -, hc⟩ := h.of_rejected (by simpa using hvalid) (by simpa using hnew)
  refine ⟨⟨r.raw, c, r.suggestion⟩, ?_⟩
  unfold Hallucination.ofReference
  rw [hc]

/-- Every judgement is under one of three heads: what exists, what is announced, and what is
rejected. -/
theorem length_eq_of_wellFormed (h : ∀ r ∈ refs, r.WellFormed categories) :
    refs.length = refs.countP (·.valid) + refs.countP (·.intentionalNew) +
      refs.countP (·.hallucinated) := by
  induction refs with
  | nil => rfl
  | cons r rest ih =>
    have hrest := ih fun s hs => h s (List.mem_cons_of_mem r hs)
    have hr := h r List.mem_cons_self
    rw [List.length_cons, List.countP_cons, List.countP_cons, List.countP_cons, hrest]
    -- What exists is not announced; what does not is announced or rejected.
    cases hvalid : r.valid with
    | true =>
      simp only [Reference.hallucinated, hvalid, (hr.of_valid hvalid).2.2]
      simp only [if_true, Bool.not_true, Bool.false_and, Bool.false_eq_true, if_false]
      omega
    | false =>
      cases hnew : r.intentionalNew <;>
        simp only [Reference.hallucinated, hvalid, hnew, Bool.not_true, Bool.not_false,
          Bool.and_true, Bool.and_false, Bool.false_eq_true, if_true, if_false] <;> omega

/-- **Well formed judgements have a result**, which counts every one of them. -/
theorem Result.ofReferences_of_wellFormed (id : String)
    (h : ∀ r ∈ refs, r.WellFormed categories) :
    ∃ result, Result.ofReferences id refs = .ok result ∧
      result.checked = refs.countP (·.valid) + refs.countP (·.intentionalNew) +
        result.hallucinated := by
  have hall : ∀ r ∈ refs.filter (·.hallucinated), ∃ x, Hallucination.ofReference r = .ok x :=
    fun r hr => (h r (List.mem_filter.mp hr).1).exists_hallucination (List.mem_filter.mp hr).2
  obtain ⟨rejections, hrejections⟩ := exists_mapM_eq_ok hall
  have hcount : refs.countP (·.hallucinated) = rejections.length := by
    rw [List.countP_eq_length_filter, (mapM_eq_ok_iff.mp hrejections).length_eq]
  refine ⟨_, map_eq_ok_iff.mpr ⟨rejections, hrejections, rfl⟩, ?_⟩
  exact (length_eq_of_wellFormed h).trans (congrArg _ hcount)

end Result

/-! ## One judgement of each domain -/

/-! ### The categories of a domain -/

/-- Why a path is rejected. -/
def Paths.categories : List Category := [.path]

/-- Why a part of a client call is rejected. -/
def Prisma.categories : List Category := [.model, .field, .invalidMethod, .wrongRelation]

/-- Why a table or a column is rejected. -/
def Sql.categories : List Category := [.table, .column]

/-- Why an import is rejected. -/
def Packages.importCategories : List Category := [.packageNotFound, .subpathNotExported]

/-- Why an imported name or a member is rejected. -/
def Packages.apiCategories : List Category := [.namedImport, .member]

/-- Why an environment variable is rejected. -/
def Env.categories : List Category := [.envVariable]

/-- Why a type or a member is rejected. -/
def Types.categories : List Category := [.type, .member]

/-- Why a route is rejected, whatever the router. -/
def Routes.categories : List Category := [.route, .httpMethod]

/-- Why a part of a query is rejected. -/
def Supabase.categories : List Category := [.table, .column, .function]

/-! ### Judgements -/

section Judgement

open Reference

variable (m : Mention)

theorem Paths.wellFormed_judge (tree : FileTree) (plan : List Char) (allowed : List String) :
    (judge tree plan allowed m).WellFormed categories := by
  unfold judge
  split
  · exact wellFormed_accept
  · split
    · exact wellFormed_announce
    · exact wellFormed_reject (by decide)

theorem Prisma.wellFormed_of_judge? {schema : Schema} {r : Reference} {m : Mention}
    (h : judge? schema m = some r) : r.WellFormed categories := by
  unfold judge? at h
  -- A model, a method, a field, or else a relation.
  split at h
  · obtain rfl := Option.some.inj h
    exact wellFormed_ite (by decide)
  · obtain rfl := Option.some.inj h
    exact wellFormed_ite (by decide)
  · obtain ⟨model, -, rfl⟩ := Option.map_eq_some_iff.mp h
    exact wellFormed_ite (by decide)
  · obtain ⟨model, -, rfl⟩ := Option.map_eq_some_iff.mp h
    unfold judgeRelation
    split
    · exact wellFormed_reject (by decide)
    · exact wellFormed_ite (by decide)

theorem Sql.wellFormed_of_judge? {schema : Schema} {r : Reference} {m : Mention}
    (h : judge? schema m = some r) : r.WellFormed categories := by
  unfold judge? at h
  split at h
  · split at h
    · cases h
    · obtain rfl := Option.some.inj h
      exact wellFormed_reject (by decide)
  · split at h
    · obtain rfl := Option.some.inj h
      exact wellFormed_accept
    · split at h
      · obtain rfl := Option.some.inj h
        exact wellFormed_accept
      · obtain rfl := Option.some.inj h
        exact wellFormed_reject (by decide)

theorem Packages.wellFormed_of_judgeImport {files : FileSystem} {packages : Path} {r : Reference}
    {m : Mention} (h : judgeImport files packages m = .ok r) :
    r.WellFormed importCategories := by
  -- No such package, one that passes, or a part of one that is not exported.
  rcases judgeImport_cases h with ⟨-, rfl⟩ | ⟨-, rfl | ⟨suggestion, rfl⟩⟩
  · exact wellFormed_reject (by decide)
  · exact wellFormed_accept
  · exact wellFormed_reject (by decide)

theorem Env.wellFormed_judge (index : Index) :
    (judge index m).WellFormed categories :=
  wellFormed_ite (by decide)

theorem Types.wellFormed_judge (index : Index) :
    (judge index m).WellFormed categories := by
  unfold judge
  split
  · exact wellFormed_reject (by decide)
  · split
    · exact wellFormed_accept
    · exact wellFormed_ite (by decide)

theorem Routes.wellFormed_judgeApp (index : AppIndex) :
    (judgeApp index m).WellFormed categories := by
  unfold judgeApp
  split
  · exact wellFormed_reject (by decide)
  · split
    · exact wellFormed_accept
    · exact wellFormed_ite (by decide)

theorem Routes.wellFormed_judgeCall (index : CallIndex) :
    (judgeCall index m).WellFormed categories := by
  unfold judgeCall
  split
  · exact wellFormed_reject (by decide)
  · simp only
    split
    · exact wellFormed_accept
    · exact wellFormed_ite (by decide)

theorem Supabase.wellFormed_judgeColumn (table : Table) :
    (judgeColumn table m).WellFormed categories := by
  unfold judgeColumn
  split
  · exact wellFormed_accept
  · exact wellFormed_ite (by decide)

theorem Supabase.wellFormed_of_judge? {schema : Schema} {r : Reference} {m : Mention}
    (h : judge? schema m = some r) : r.WellFormed categories := by
  unfold judge? at h
  split at h
  · obtain rfl := Option.some.inj h
    exact wellFormed_ite (by decide)
  · split at h
    · obtain rfl := Option.some.inj h
      exact wellFormed_judgeColumn m _
    · split at h
      · obtain rfl := Option.some.inj h
        exact wellFormed_reject (by decide)
      · cases h

theorem Packages.wellFormed_judgeMember (api : Api) (b : Binding) :
    (judgeMember api b m).WellFormed apiCategories := by
  unfold judgeMember
  -- A name bound to one export, or one bound to the whole package.
  split
  · split
    · exact wellFormed_accept
    · exact wellFormed_ite (by decide)
  · exact wellFormed_ite (by decide)

theorem Packages.wellFormed_of_mem_analyzeApi {plan : List Char} {apis : Catalog Api} :
    ∀ r ∈ analyzeApi plan apis, r.WellFormed apiCategories := by
  refine wellFormed_dedupe fun r hr => ?_
  rcases List.mem_append.mp hr with hr | hr
  · obtain ⟨b, -, hb⟩ := List.mem_filterMap.mp hr
    obtain ⟨api, -, rfl⟩ := Option.map_eq_some_iff.mp hb
    exact wellFormed_ite (by decide)
  · obtain ⟨m, -, hb⟩ := List.mem_filterMap.mp hr
    obtain ⟨b, -, hb⟩ := Option.bind_eq_some_iff.mp hb
    obtain ⟨api, -, rfl⟩ := Option.map_eq_some_iff.mp hb
    exact wellFormed_judgeMember m api b

end Judgement

/-! ## The ten domains -/

/-- What a plan is judged against in one of the ten domains. -/
inductive GroundTruth where
  /-- The files of a project, and the shapes of paths that the plan may create. -/
  | paths (tree : FileTree) (allowed : List String)
  /-- The models of a client. -/
  | prisma (schema : Prisma.Schema)
  /-- The tables of a database. -/
  | sql (schema : Sql.Schema)
  /-- The installed packages. -/
  | imports (files : FileSystem) (packages : Path)
  /-- The variables of environment files. -/
  | env (index : Env.Index)
  /-- The declared types. -/
  | types (index : Types.Index)
  /-- The routes of the application router. -/
  | appRoutes (index : Routes.AppIndex)
  /-- The tables and functions of a generated schema. -/
  | supabase (schema : Supabase.Schema)
  /-- The routes of call-based routers. -/
  | callRoutes (index : Routes.CallIndex)
  /-- The exports of packages. -/
  | api (apis : Catalog Packages.Api)

namespace GroundTruth

open Reference

/-- The checker that judges against it. -/
def checker : GroundTruth → Checker
  | paths _ _ => Paths.checker
  | prisma _ => Prisma.checker
  | sql _ => Sql.checker
  | imports _ _ => Packages.importChecker
  | env _ => Env.checker
  | types _ => Types.checker
  | appRoutes _ => Routes.appChecker
  | supabase _ => Supabase.checker
  | callRoutes _ => Routes.callChecker
  | api _ => Packages.apiChecker

/-- The categories for which the checker rejects. -/
def categories : GroundTruth → List Category
  | paths _ _ => Paths.categories
  | prisma _ => Prisma.categories
  | sql _ => Sql.categories
  | imports _ _ => Packages.importCategories
  | env _ => Env.categories
  | types _ => Types.categories
  | appRoutes _ => Routes.categories
  | supabase _ => Supabase.categories
  | callRoutes _ => Routes.categories
  | api _ => Packages.apiCategories

/-- The judgements of a plan. -/
def judgements (plan : List Char) : GroundTruth → Except Fault (List Reference)
  | paths tree allowed => .ok (Paths.analyze plan tree allowed)
  | prisma schema => .ok (Prisma.analyze plan schema)
  | sql schema => .ok (Sql.analyze plan schema)
  | imports files packages => Packages.analyzeImports plan files packages
  | env index => .ok (Env.analyze plan index)
  | types index => .ok (Types.analyze plan index)
  | appRoutes index => .ok (Routes.analyzeApp plan index)
  | supabase schema => .ok (Supabase.analyze plan schema)
  | callRoutes index => .ok (Routes.analyzeCall plan index)
  | api apis => .ok (Packages.analyzeApi plan apis)

/-- **The judgements of every domain are well formed.** -/
theorem wellFormed_of_mem {truth : GroundTruth} {plan : List Char} {refs : List Reference}
    (h : truth.judgements plan = .ok refs) : ∀ r ∈ refs, r.WellFormed truth.categories := by
  cases truth with
  | paths tree allowed =>
    obtain rfl := Except.ok.inj h
    exact List.forall_mem_map.mpr fun m _ => Paths.wellFormed_judge m tree plan allowed
  | prisma schema =>
    obtain rfl := Except.ok.inj h
    exact wellFormed_dedupe fun r hr =>
      let ⟨_, _, hjudge⟩ := List.mem_filterMap.mp hr
      Prisma.wellFormed_of_judge? hjudge
  | sql schema =>
    obtain rfl := Except.ok.inj h
    exact wellFormed_dedupe fun r hr =>
      let ⟨_, _, hjudge⟩ := List.mem_filterMap.mp hr
      Sql.wellFormed_of_judge? hjudge
  | imports files packages =>
    obtain ⟨judged, hjudged, rfl⟩ := map_eq_ok_iff.mp h
    exact wellFormed_dedupe fun r hr =>
      let ⟨_, _, hjudge⟩ := exists_mem_of_mapM_eq_ok hjudged hr
      Packages.wellFormed_of_judgeImport hjudge
  | env index =>
    obtain rfl := Except.ok.inj h
    exact wellFormed_dedupe (List.forall_mem_map.mpr fun m _ => Env.wellFormed_judge m index)
  | types index =>
    obtain rfl := Except.ok.inj h
    exact wellFormed_dedupe (List.forall_mem_map.mpr fun m _ => Types.wellFormed_judge m index)
  | appRoutes index =>
    obtain rfl := Except.ok.inj h
    exact wellFormed_dedupe (List.forall_mem_map.mpr fun m _ => Routes.wellFormed_judgeApp m index)
  | supabase schema =>
    obtain rfl := Except.ok.inj h
    exact wellFormed_dedupe fun r hr =>
      let ⟨_, _, hjudge⟩ := List.mem_filterMap.mp hr
      Supabase.wellFormed_of_judge? hjudge
  | callRoutes index =>
    obtain rfl := Except.ok.inj h
    exact wellFormed_dedupe (List.forall_mem_map.mpr fun m _ => Routes.wellFormed_judgeCall m index)
  | api apis =>
    obtain rfl := Except.ok.inj h
    exact Packages.wellFormed_of_mem_analyzeApi

/-- **The judgements of every domain are well formed and have a result**, which counts every one of
them as valid, announced or rejected. -/
theorem judgements_wellFormed (truth : GroundTruth) (plan : List Char) (refs : List Reference)
    (h : truth.judgements plan = .ok refs) :
    (∀ r ∈ refs, r.WellFormed truth.categories) ∧
      ∃ result, Result.ofReferences truth.checker.id refs = .ok result ∧
        result.checked = refs.countP (·.valid) + refs.countP (·.intentionalNew) +
          result.hallucinated :=
  ⟨wellFormed_of_mem h, Result.ofReferences_of_wellFormed _ (wellFormed_of_mem h)⟩

/-- A project with one file. -/
def oneFile : GroundTruth := .paths ⟨["src/app.ts"]⟩ ["src/gen/*.ts"]

/-- A plan that names the file, a file of an allowed shape, and a file that is not there. -/
def threePaths : List Char := "`src/app.ts`, `src/gen/api.ts` and `src/lost.ts`".toList

/-- Of three paths one exists, one is announced and one is rejected. -/
theorem judgements_wellFormed_threePaths : ∃ refs, oneFile.judgements threePaths = .ok refs ∧
    refs.map (fun r => (r.valid, r.intentionalNew, r.category)) =
      [(true, false, none), (false, true, none), (false, false, some .path)] ∧
    (∀ r ∈ refs, r.WellFormed oneFile.categories) ∧
    ∃ result, Result.ofReferences oneFile.checker.id refs = .ok result ∧
      result.checked = refs.countP (·.valid) + refs.countP (·.intentionalNew) +
        result.hallucinated :=
  ⟨_, rfl, by decide +kernel, judgements_wellFormed oneFile threePaths _ rfl⟩

end GroundTruth

end PlanAudit
