import PlanAudit.Catalog
import PlanAudit.Routes.Mentions

/-!
# Routes of the application router

Each file named `route` below a directory named `app` serves the URL that its directories spell.
A segment in square brackets stands for any segment, one with dots for the rest of the URL, and a
segment in parentheses does not show in the URL.

## Main definitions

* `urlOfFile?`: the URL that a file serves
* `exportedMethods`: the methods that a file handles
* `AppRoute`, `AppIndex`: the routes of a project by URL
* `AppIndex.match?`: the route that serves a URL
-/

namespace PlanAudit.Routes

open PlanAudit.Text Pattern

/-- A route of the application router. -/
structure AppRoute where
  /-- The URL, with parameters in square brackets. -/
  url : String
  /-- The file that serves it. -/
  filePath : String
  /-- The methods that the file handles. -/
  methods : List String
  deriving DecidableEq, Repr

/-- The routes of a project by URL, in the order of the scan. -/
abbrev AppIndex := Catalog AppRoute

/-! ## Files -/

/-- The name of a file that serves a route. -/
def routeFileName : Pattern := lit "route." ++ oneOfTexts ["ts", "js", "tsx", "jsx"] ++ textEnd

/-- The path of a file that serves a route. -/
def routeFile : Pattern :=
  (textStart ||| char '/') ++ lit "app/" ++ opt (star (one (· != '\n')) ++ char '/') ++
    routeFileName

/-- The name of a file that serves a route, with the slash before it. -/
def routeHandler : Pattern := opt (char '/') ++ routeFileName

/-- A segment that groups routes and does not show in the URL. -/
def groupSegment : Pattern := char '(' ++ plus (one (· != ')')) ++ char ')' ++ textEnd

/-- Whether a segment shows in the URL. -/
def showsInUrl (segment : String) : Bool :=
  segment != "" && !groupSegment.matchesStart segment.toList

/-- The URL of the segments below the root of the router. -/
def urlOfSegments (below : List String) : String :=
  let handled := routeHandler.replaceAll [] ("/".intercalate below).toList
  "/" ++ "/".intercalate ((segments (String.ofList handled)).filter showsInUrl)

/-- The URL that a file serves; none if it lies outside every directory named `app`. -/
def urlOfFile? (path : String) : Option String :=
  match (segments path).dropWhile (· != "app") with
  | [] => none
  | _ :: below => some (urlOfSegments below)

/-- A handler exported as a function. -/
def exportedFunction : Pattern :=
  lit "export" ++ blanks1 ++ opt (lit "async" ++ blanks1) ++ lit "function" ++ blanks1 ++
    capture 1 (oneOfTexts httpMethods) ++ wordEdge

/-- A handler exported as a constant. -/
def exportedConstant : Pattern :=
  lit "export" ++ blanks1 ++ lit "const" ++ blanks1 ++ capture 1 (oneOfTexts httpMethods) ++
    blanks ++ char '='

/-- The methods that a file handles, in canonical order. -/
def exportedMethods (content : List Char) : List String :=
  let found := [exportedFunction, exportedConstant].flatMap fun p =>
    (p.findAll content).map (Match.name · 1)
  httpMethods.filter found.contains

/-! ## Matching -/

/-- A segment that stands for any segment. -/
def isDynamic (segment : String) : Bool := stringBegins "[" segment && stringEnds "]" segment

/-- A segment that stands for the rest of the URL. -/
def isCatchAll (segment : String) : Bool :=
  stringBegins "[..." segment || stringBegins "[[..." segment

/-- Whether the segments of a route agree with those of a URL as far as both go. -/
def segmentsAgree : List String → List String → Bool
  | r :: route, u :: url => (isDynamic r || r == u) && segmentsAgree route url
  | _, _ => true

/-- Whether a route whose last segment stands for the rest serves a URL. -/
def catchAllServes (route url : List String) : Bool :=
  match route.getLast? with
  | some last =>
    isCatchAll last && route.dropLast.length ≤ url.length && segmentsAgree route.dropLast url
  | none => false

/-- Whether a route serves a URL, both cut into segments. -/
def serves (route url : List String) : Bool :=
  catchAllServes route url || (route.length == url.length && segmentsAgree route url)

/-- The route that serves a URL: the one of exactly that URL, or else the first that fits. -/
def AppIndex.match? (index : AppIndex) (url : String) : Option AppRoute :=
  match index.find? url with
  | some route => some route
  | none =>
    (index.entries.find? fun entry => serves (properSegments entry.1) (properSegments url)).map
      (·.2)

end PlanAudit.Routes
