import PlanAudit.Checker.Basic
import PlanAudit.Env.Discovery

/-!
# The checker of environment variables

## Main definitions

* `reportLines`: the variables that are not defined, and those that are
* `checker`: the checker, which applies to projects with an environment file
-/

namespace PlanAudit.Env

open PlanAudit.Text

/-- The bullet for a variable that is not defined. -/
def rejectedLine (h : Hallucination) : String :=
  let arrow :=
    match h.suggestion with
    | none => ""
    | some s => if s = "" then "" else " → " ++ code s
  "- " ++ code h.raw ++ arrow

/-- The lines of the checker in the full report. -/
def reportLines (index : Index) (r : Result) : List String :=
  ["## Env Variables", bold r.checked ++ " checked — " ++ bold r.hallucinated ++ " hallucinated"] ++
    r.hallucinations.map rejectedLine ++
    [if r.hallucinated = 0 then "All env vars valid."
      else "- Defined vars: " ++ codeList index.definedIn.names, ""]

/-- The excerpt for a reviewer. -/
def excerpt (index : Index) (r : Result) : Option String :=
  ownExcerpt "Environment Variable Issues"
    ("env variable(s) not defined in project env files (" ++ commaList index.files ++ ")")
    (r.hallucinations.map fun h => issueLine h.raw "not in env files" h.suggestion) r

/-- The checker of environment variables. -/
def checker : Checker :=
  .ofPure "env" "Env Variables" false fun audit =>
    let index := Index.ofProject audit.project
    if index.files.isEmpty then .ok (.notApplicable "env")
    else Outcome.ofReferences "env" (analyze audit.plan index) (reportLines index) (excerpt index)

end PlanAudit.Env
