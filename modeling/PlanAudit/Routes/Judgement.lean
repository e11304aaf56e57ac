import PlanAudit.Routes.AppRouter
import PlanAudit.Routes.CallRouter
import PlanAudit.Suggestion

/-!
# Judging routes

## Main definitions

* `suggestRoute`: an indexed route whose last segment overlaps that of the requested one
* `judgeApp`, `judgeCall`: the judgement of a route, for either kind of router
* `analyzeApp`, `analyzeCall`: the judgements of the routes of a plan
-/

namespace PlanAudit.Routes

open PlanAudit.Text

/-- The last segment of a URL. -/
def lastSegment? (url : String) : Option String := (properSegments url).getLast?

/-- The last segment of a URL, if it counts: a parameter may be set to be skipped. -/
def countedSegment? (skipParameters : Bool) (url : String) : Option String :=
  (lastSegment? url).filter fun s => !(skipParameters && stringBegins ":" s)

/-- The first route whose last segment overlaps that of the URL. -/
def suggestRoute (skipParameters : Bool) (url : String) (routes : List String) : Option String :=
  match countedSegment? skipParameters url with
  | none => none
  | some wanted =>
    routes.find? fun route => (countedSegment? skipParameters route).any (overlaps wanted)

/-- The hint that lists the methods of a route. -/
def methodsHint (methods : List String) : String := "valid methods: " ++ commaList methods

/-- The judgement of an `/api/` route.  A file without known handlers admits any method. -/
def judgeApp (index : AppIndex) (m : Mention) : Reference :=
  match index.match? m.ownerName with
  | none => m.reject .route (suggestRoute false m.ownerName index.names)
  | some route =>
    match m.method with
    | none => m.accept
    | some method =>
      if method = "" ∨ route.methods = [] ∨ method ∈ route.methods then m.accept
      else m.reject .httpMethod (some (methodsHint route.methods))

/-- The judgement of a route of a call-based router.  A route registered for all methods admits
any. -/
def judgeCall (index : CallIndex) (m : Mention) : Reference :=
  match index.match? m.ownerName with
  | none => m.reject .route (suggestRoute true m.ownerName index.routes.names)
  | some url =>
    let methods := index.methodsFor url
    match m.method with
    | none => m.accept
    | some method =>
      if method = "" ∨ method ∈ methods ∨ "ALL" ∈ methods then m.accept
      else m.reject .httpMethod (some (methodsHint methods))

/-- The judgements of the `/api/` routes of a plan. -/
def analyzeApp (plan : List Char) (index : AppIndex) : List Reference :=
  Reference.dedupe ((apiMentions plan).map (judgeApp index))

/-- The judgements of all routes of a plan. -/
def analyzeCall (plan : List Char) (index : CallIndex) : List Reference :=
  Reference.dedupe ((callMentions plan).map (judgeCall index))

end PlanAudit.Routes
