import PlanAudit.Pattern.Build
import PlanAudit.Reference

/-!
# HTTP routes in a plan

A plan mentions a route by a call that requests it, by a method and a path, or by a path between
grave accents.  The same patterns serve both kinds of routers: routes of the application router
start with `/api/`, those of a call-based router with any slash.

## Main definitions

* `httpMethods`: the methods in canonical order
* `normalizeUrl`: a path without query, trailing punctuation and trailing slash
* `apiMentions`: the `/api/` routes that a plan mentions
* `callMentions`: all routes that a plan mentions
-/

namespace PlanAudit.Routes

open PlanAudit.Text Pattern

/-- The HTTP methods in canonical order. -/
def httpMethods : List String := ["GET", "POST", "PUT", "PATCH", "DELETE", "HEAD", "OPTIONS"]

/-! ## Patterns -/

/-- A pattern together with the numbers of the captures that hold the path and the method. -/
structure RoutePattern where
  /-- The pattern. -/
  pattern : Pattern
  /-- The capture that holds the path. -/
  path : Nat
  /-- The capture that holds the method, if the pattern has one. -/
  method : Option Nat

/-- A character of a quoted path. -/
def isQuotedPathChar (c : Char) : Bool := !"\"'\x60)".toList.contains c && !isBlank c

/-- A quoted path that begins as `start` says. -/
def quotedPath (index : Nat) (start : Pattern) : Pattern :=
  anyQuote ++ capture index (start ++ star (one isQuotedPathChar)) ++ anyQuote

/-- A call of `fetch` with a path. -/
def fetchCall (start : String) : Pattern :=
  lit "fetch" ++ blanks ++ char '(' ++ blanks ++ quotedPath 1 (lit start)

/-- A call of `fetch` with a path and an object that names the method. -/
def fetchCallWithMethod (start : String) : Pattern :=
  litAnyCase "fetch" ++ blanks ++ char '(' ++ blanks ++ quotedPath 1 (litAnyCase start) ++ blanks ++
    char ',' ++ blanks ++ char '{' ++ star (one (· != '}')) ++ litAnyCase "method" ++ blanks ++
    char ':' ++ blanks ++ anyQuote ++ capture 2 (oneOfTextsAnyCase httpMethods) ++ anyQuote

/-- A call of a method of the `axios` client with a path. -/
def axiosCall (start : String) : Pattern :=
  litAnyCase "axios" ++ char '.' ++
    capture 1 (oneOfTextsAnyCase ["get", "post", "put", "delete", "patch"]) ++ blanks ++
    char '(' ++ blanks ++ quotedPath 2 (litAnyCase start)

/-- A method and a path in prose. -/
def methodAndPath (start : String) : Pattern :=
  wordEdge ++ capture 1 (oneOfTexts httpMethods) ++ blanks1 ++
    capture 2 (lit start ++ star (one fun c => !isBlank c))

/-- The patterns for paths that begin with `start`. -/
def routePatterns (start : String) : List RoutePattern :=
  [⟨fetchCall start, 1, none⟩, ⟨fetchCallWithMethod start, 1, some 2⟩,
    ⟨axiosCall start, 2, some 1⟩, ⟨methodAndPath start, 2, some 1⟩]

/-- A `/api/` path between grave accents. -/
def apiSpan : Pattern :=
  char '\x60' ++ capture 1 (lit "/api/" ++ plus (one fun c => c != '\x60' && !isBlank c)) ++
    char '\x60'

/-- A `/api/` path made into a URL. -/
def apiUrl : Pattern :=
  lit "new" ++ blanks1 ++ lit "URL" ++ blanks ++ char '(' ++ blanks ++ anyQuote ++
    capture 1 (lit "/api/" ++ plus (one isQuotedPathChar)) ++ anyQuote

/-- The patterns for `/api/` paths. -/
def apiPatterns : List RoutePattern :=
  routePatterns "/api/" ++ [⟨apiSpan, 1, none⟩, ⟨apiUrl, 1, none⟩]

/-- An ASCII letter up to case. -/
def isLetterAnyCase (c : Char) : Bool :=
  isLowerAscii (foldedChar c) || c == '\u0131' || c == '\u017f'

/-- Any path between grave accents. -/
def pathSpan : Pattern :=
  char '\x60' ++
    capture 1 (char '/' ++ one isLetterAnyCase ++ star (one fun c => c != '\x60' && !isBlank c)) ++
    char '\x60'

/-- A short file extension at the end of a text. -/
def fileExtension : Pattern := char '.' ++ loop true 1 (some 5) word ++ textEnd

/-! ## Mentions -/

/-- Punctuation that ends a sentence or a call rather than a path. -/
def isTrailingPunctuation (c : Char) : Bool := "\x60'\")],;.".toList.contains c

/-- The path without trailing punctuation, query and trailing slashes; the root stays. -/
def normalizeUrl (path : List Char) : String :=
  let bare := (dropEndWhile isTrailingPunctuation path).takeWhile (· != '?')
  let url := dropEndWhile (· == '/') bare
  if url.isEmpty then "/" else String.ofList url

/-- The mention of a route at a position. -/
def routeMention (offset : Nat) (method : Option String) (url : String) : Mention :=
  { raw := match method with
      | some m => m ++ " " ++ url
      | none => url
    kind := .route, offset := some offset, owner := some url, method := method }

/-- What makes two mentions of routes the same. -/
def routeKey (m : Mention) : String × Option String := (m.method.getD "", m.owner)

/-- The mentions found by the pattern. -/
def RoutePattern.mentions (p : RoutePattern) (plan : List Char) : List Mention :=
  (p.pattern.findAll plan).map fun m =>
    routeMention m.start (p.method.map fun i => String.ofList (upper (m.group i)))
      (normalizeUrl (m.group p.path))

/-- The mentions found by the patterns whose path begins with `start`, each once. -/
def mentionsBy (patterns : List RoutePattern) (start : String) (plan : List Char) : List Mention :=
  firstPerKey routeKey
    ((patterns.flatMap (·.mentions plan)).filter fun m => stringBegins start m.ownerName)

/-- The `/api/` routes that the plan mentions, with the method if it is stated. -/
def apiMentions (plan : List Char) : List Mention := mentionsBy apiPatterns "/api/" plan

/-- The routes between grave accents, paths with a file extension left out. -/
def spanMentions (plan : List Char) : List Mention :=
  ((pathSpan.findAll plan).filter fun m => !fileExtension.occursIn (m.group 1)).map fun m =>
    routeMention m.start none (normalizeUrl (m.group 1))

/-- The routes that the plan mentions, with the method if it is stated. -/
def callMentions (plan : List Char) : List Mention :=
  firstPerKey routeKey (mentionsBy (routePatterns "/") "/" plan ++ spanMentions plan)

end PlanAudit.Routes
