import PlanAudit.Checker.Registry

/-!
# Running checkers

Checkers run one after the other; one that fails is reported as not applicable, and the others run
nevertheless.

## Main definitions

* `Run`: a checker with what it found
* `runChecker`: the outcome of one checker
* `runChecks`: the runs of all checkers that take part
-/

namespace PlanAudit

/-- A checker with what it found. -/
structure Run where
  /-- The identifier of the checker. -/
  id : String
  /-- The name of the checker in reports. -/
  displayName : String
  /-- What it found. -/
  outcome : Outcome
  deriving DecidableEq, Repr

namespace Run

/-- The result of the checker. -/
def result (r : Run) : Result := r.outcome.result

/-- Whether the checker applied. -/
def applicable (r : Run) : Bool := r.outcome.result.applicable

end Run

/-- The outcome of a checker and what is remembered of packages afterwards; a checker that fails
does not apply. -/
def runChecker (c : Checker) (audit : Audit) (cache : Packages.ApiCache) :
    Outcome × Packages.ApiCache :=
  match c.run audit cache with
  | (.ok outcome, cache) => (outcome, cache)
  | (.error _, cache) => (.notApplicable c.id, cache)

/-- The runs of the checkers in order, and what is remembered of packages afterwards. -/
def runAll (audit : Audit) : List Checker → Packages.ApiCache → List Run × Packages.ApiCache
  | [], cache => ([], cache)
  | c :: rest, cache =>
    let (outcome, cache) := runChecker c audit cache
    let (runs, cache) := runAll audit rest cache
    (⟨c.id, c.displayName, outcome⟩ :: runs, cache)

/-- The registry, or that of this library in place of an empty one. -/
def Registry.orBuiltin (r : Registry) : Registry := if r.size = 0 then .builtin else r

/-- The runs of the checkers that take part. -/
def runChecks (r : Registry) (audit : Audit) (cache : Packages.ApiCache) :
    List Run × Packages.ApiCache :=
  runAll audit (r.orBuiltin.enabled audit.options.includeExperimental) cache

end PlanAudit
