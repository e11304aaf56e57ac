import PlanAudit.Env.Checker
import PlanAudit.Packages.Checker
import PlanAudit.Paths.Checker
import PlanAudit.Prisma.Checker
import PlanAudit.Routes.Checker
import PlanAudit.Sql.Checker
import PlanAudit.Supabase.Checker
import PlanAudit.Types.Checker

/-!
# The registry of checkers

## Main definitions

* `Registry`: checkers under distinct identifiers, in the order in which they were entered
* `Registry.register`, `Registry.get`, `Registry.enabled`: change and look-up
* `builtinCheckers`, `Registry.builtin`: the checkers of this library
-/

namespace PlanAudit

/-- Checkers under distinct identifiers. -/
structure Registry where
  /-- The checkers in the order in which they were entered. -/
  checkers : List Checker
  /-- No identifier is taken twice. -/
  nodup : (checkers.map (·.id)).Nodup

namespace Registry

/-- The registry without checkers. -/
def empty : Registry := ⟨[], List.nodup_nil⟩

/-- The number of checkers. -/
def size (r : Registry) : Nat := r.checkers.length

/-- Whether the identifier is taken. -/
def contains (r : Registry) (id : String) : Bool := r.checkers.any (·.id == id)

/-- The registry with a checker entered; its identifier must be free. -/
def register (r : Registry) (c : Checker) : Except Fault Registry :=
  if h : r.contains c.id then .error (.duplicateChecker c.id)
  else .ok
    { checkers := r.checkers ++ [c]
      nodup := by
        rw [List.map_append, List.nodup_append]
        refine ⟨r.nodup, by simp, ?_⟩
        intro a ha b hb e
        obtain ⟨d, hd, rfl⟩ := List.mem_map.1 ha
        simp only [List.map_cons, List.map_nil, List.mem_singleton] at hb
        apply h
        simp only [contains, List.any_eq_true, beq_iff_eq]
        exact ⟨d, hd, e.trans hb⟩ }

/-- The checker with the identifier. -/
def get (r : Registry) (id : String) : Except Fault Checker :=
  match r.checkers.find? (·.id == id) with
  | some c => .ok c
  | none => .error (.unknownChecker id)

/-- The checkers that take part, experimental ones only on request. -/
def enabled (r : Registry) (includeExperimental : Bool) : List Checker :=
  r.checkers.filter fun c => includeExperimental || !c.experimental

end Registry

/-- The checkers of this library, in the order of the report. -/
def builtinCheckers : List Checker :=
  [Paths.checker, Prisma.checker, Sql.checker, Packages.importChecker, Env.checker, Types.checker,
    Routes.appChecker, Supabase.checker, Routes.callChecker, Packages.apiChecker]

/-- The registry of the checkers of this library. -/
def Registry.builtin : Registry := ⟨builtinCheckers, by decide⟩

end PlanAudit
