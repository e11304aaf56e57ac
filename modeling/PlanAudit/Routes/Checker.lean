import PlanAudit.Checker.Basic
import PlanAudit.Routes.Discovery
import PlanAudit.Routes.Judgement

/-!
# The checkers of routes

There is one checker for each kind of router.

## Main definitions

* `appChecker`: the checker of the application router, which applies to projects with such routes
* `callChecker`: the checker of call-based routers, which applies to projects with such routes
-/

namespace PlanAudit.Routes

open PlanAudit.Text

/-- The bullets for the rejected references, with the word for a route that is missing. -/
def rejectedLines (missing : String) (refs : List Reference) : List String :=
  (refs.filter (·.hallucinated)).map fun r =>
    issueLine r.raw (if r.category = some .route then missing else "method not allowed")
      r.suggestion

/-- The lines of a checker in the full report, with a title and the known routes. -/
def reportLines (title : String) (size : Nat) (routes : List String) (refs : List Reference)
    (r : Result) : List String :=
  ["## " ++ title,
      bold size ++ " routes indexed, " ++ bold r.checked ++ " refs — " ++ bold r.hallucinated ++
        " hallucinated"] ++
    rejectedLines "not found" refs ++
    (if r.hallucinated = 0 then ["All route refs valid."] else []) ++
    ["**Routes:** " ++ commaList routes, ""]

/-- The excerpt for a reviewer, with words for the routes in its title and in its sentence. -/
def excerpt (title noun : String) (refs : List Reference) : Result → Option String :=
  ownExcerpt (title ++ " Issues") (noun ++ " hallucination(s)")
    (rejectedLines "route not found" refs)

/-- The methods of a route between square brackets. -/
def methodList (methods : List String) : String := "[" ++ ",".intercalate methods ++ "]"

/-! ## The application router -/

/-- A route of the application router as the report lists it. -/
def appRouteText (entry : String × AppRoute) : String :=
  code entry.1 ++ " " ++ methodList entry.2.methods

/-- The checker of the application router. -/
def appChecker : Checker :=
  .ofPure "routes" "API Routes" false fun audit =>
    audit.tree.bind fun tree =>
      let index := AppIndex.ofProject audit.project tree
      if index.isEmpty then .ok (.notApplicable "routes")
      else
        let refs := analyzeApp audit.plan index
        Outcome.ofReferences "routes" refs
          (reportLines "API Routes" index.size (index.entries.map appRouteText) refs)
          (excerpt "API Route" "API route" refs)

/-! ## Call-based routers -/

/-- The name of the routers that a project uses. -/
def Framework.title : Framework → String
  | .fastify => "Fastify"
  | .both => "Express/Fastify"
  | _ => "Express"

/-- The name of the routers as the title of a section. -/
def Framework.heading : Framework → String
  | .both => "Express + Fastify"
  | framework => framework.title

/-- A route of a call-based router as the report lists it, with the file that first registers it. -/
def callRouteText (index : CallIndex) (entry : String × List CallRoute) : String :=
  code entry.1 ++ " " ++ methodList (index.methodsFor entry.1) ++ " → " ++
    code ((entry.2.head?.map (·.filePath)).getD "")

/-- The outcome of the checker of call-based routers, given the routes of the project. -/
def callOutcome (plan : List Char) (index : CallIndex) : Except Fault Outcome :=
  if index.routes.isEmpty then .ok (.notApplicable "expressRoutes")
  else
    let refs := analyzeCall plan index
    let title := index.framework.title
    Outcome.ofReferences "expressRoutes" refs
      (reportLines (index.framework.heading ++ " Routes") index.routes.size
        (index.routes.entries.map (callRouteText index)) refs)
      (excerpt (title ++ " Route") (title ++ " route") refs)

/-- The checker of call-based routers. -/
def callChecker : Checker :=
  .ofPure "expressRoutes" "Express/Fastify Routes" false fun audit =>
    audit.tree.bind fun tree =>
      (CallIndex.ofProject audit.project tree).bind (callOutcome audit.plan)

end PlanAudit.Routes
