import PlanAudit.Catalog
import PlanAudit.Files.Path
import PlanAudit.Files.Tree
import PlanAudit.Routes.Mentions

/-!
# Routes of call-based routers

Routers such as Express and Fastify register a route by a call with a path.  The routes of a router
file are served below the path on which that router is mounted.

## Main definitions

* `CallRoute`, `CallIndex`: the routes of a project by URL
* `declaredRoutes`: the routes that a file registers
* `Mount`, `mounts`: the routers that a file mounts
* `resolveRelative?`: the file that a relative specifier leads to
* `CallIndex.match?`: the routes that serve a URL
-/

namespace PlanAudit.Routes

open PlanAudit.Text Pattern

/-- A route registered by a call. -/
structure CallRoute where
  /-- The method, or `ALL`. -/
  method : String
  /-- The URL, with parameters after colons. -/
  url : String
  /-- The file that registers it. -/
  filePath : String
  /-- The path on which the router of the file is mounted. -/
  mountPath : Option String
  deriving DecidableEq, Repr

/-- Which routers a project uses. -/
inductive Framework where
  | express
  | fastify
  | both
  | neither
  deriving DecidableEq, Repr

/-- The word for the routers that a project uses. -/
def Framework.label : Framework → String
  | .express => "express"
  | .fastify => "fastify"
  | .both => "both"
  | .neither => "none"

/-- The routes of a project by URL. -/
structure CallIndex where
  /-- Which routers the project uses. -/
  framework : Framework
  /-- The routes registered for each URL. -/
  routes : Catalog (List CallRoute)

/-- The index without routes. -/
def CallIndex.empty (framework : Framework) : CallIndex := ⟨framework, .empty⟩

/-- The index with a route added under its URL. -/
def CallIndex.add (index : CallIndex) (route : CallRoute) : CallIndex :=
  { index with routes := index.routes.push route.url route }

/-- The methods registered for a URL, each once. -/
def CallIndex.methodsFor (index : CallIndex) (url : String) : List String :=
  firstPerKey id (((index.routes.find? url).getD []).map (·.method))

/-! ## Registered routes -/

/-- A quoted path. -/
def quotedUrl (index : Nat) : Pattern :=
  anyQuote ++ capture index (char '/' ++ star (noneOf "\"'\x60")) ++ anyQuote

/-- A call that registers a route. -/
def routeCall : Pattern :=
  wordEdge ++ name ++ char '.' ++
    capture 1 (oneOfTextsAnyCase
      ["get", "post", "put", "delete", "patch", "head", "options", "all"]) ++
    blanks ++ char '(' ++ blanks ++ quotedUrl 2

/-- A call that registers a route by an object. -/
def routeObjectCall : Pattern :=
  wordEdge ++ name ++ lit ".route" ++ blanks ++ char '(' ++ blanks ++ char '{' ++
    capture 1 (star (one (· != '}'))) ++ char '}'

/-- The method in such an object. -/
def methodEntry : Pattern :=
  lit "method" ++ blanks ++ char ':' ++ blanks ++ anyQuote ++ capture 1 name ++ anyQuote

/-- The path in such an object. -/
def urlEntry : Pattern := lit "url" ++ blanks ++ char ':' ++ blanks ++ quotedUrl 1

/-- The route registered by an object, if it has a method and a path. -/
def objectRoute? (file : String) (body : List Char) : Option CallRoute :=
  match methodEntry.search body, urlEntry.search body with
  | some m, some u => some ⟨upperCase (m.name 1), u.name 1, file, none⟩
  | _, _ => none

/-- The routes that a file registers. -/
def declaredRoutes (content : List Char) (file : String) : List CallRoute :=
  ((routeCall.findAll content).map fun m => ⟨upperCase (m.name 1), m.name 2, file, none⟩) ++
    (routeObjectCall.findAll content).filterMap fun m => objectRoute? file (m.group 1)

/-- The text with each run of slashes cut down to one. -/
def squeezeSlashes : List Char → List Char
  | '/' :: '/' :: rest => squeezeSlashes ('/' :: rest)
  | c :: rest => c :: squeezeSlashes rest
  | [] => []

/-- The URL without repeated and trailing slashes; the root stays. -/
def normalizePath (url : String) : String :=
  let path := dropEndWhile (· == '/') (squeezeSlashes url.toList)
  if path.isEmpty then "/" else String.ofList path

/-! ## Mounted routers -/

/-- A router mounted in a file. -/
structure Mount where
  /-- The path on which it is mounted. -/
  path : String
  /-- The variable that holds the router. -/
  routerVariable : String
  /-- The file that mounts it. -/
  filePath : String
  deriving DecidableEq, Repr

/-- A call that mounts a router. -/
def mountCall : Pattern :=
  wordEdge ++ name ++ lit ".use" ++ blanks ++ char '(' ++ blanks ++ quotedUrl 1 ++ blanks ++
    char ',' ++ blanks ++ capture 2 name ++ blanks ++ char ')'

/-- The routers that a file mounts. -/
def mounts (content : List Char) (file : String) : List Mount :=
  (mountCall.findAll content).map fun m => ⟨m.name 1, m.name 2, file⟩

/-! ## Relative specifiers -/

/-- The endings that are tried on a specifier. -/
def probeEndings : List String := [".ts", ".js", ".tsx", ".jsx", "/index.ts", "/index.js"]

/-- The segments of a path, without empty ones and single dots; a leading slash is a segment. -/
def pathParts (path : String) : List String :=
  let root :=
    match path.toList with
    | '/' :: '/' :: '/' :: _ => ["/"]
    | '/' :: '/' :: _ => ["//"]
    | '/' :: _ => ["/"]
    | _ => []
  root ++ (properSegments path).filter (· != ".")

/-- The segments of the directory of a file. -/
def directoryParts (file : String) : List String :=
  match pathParts file with
  | ["/"] => ["/"]
  | ["//"] => ["//"]
  | parts => parts.dropLast

/-- The paths that are tried for a target, in order. -/
def probes (target : String) : List String :=
  target :: [withoutEnd ".js" target, target].flatMap fun base => probeEndings.map (base ++ ·)

/-- The file of the tree that a relative specifier in a file leads to. -/
def resolveRelative? (specifier file : String) (tree : FileTree) : Option String :=
  if stringBegins "." specifier then
    let target := "/".intercalate (Path.collapsed (directoryParts file ++ pathParts specifier))
    (probes target).find? tree.contains
  else none

/-- Another file's export imported under the variable. -/
def variableImport (v : String) : Pattern :=
  lit "import" ++ blanks1 ++
    ((char '{' ++ star (one (· != '}')) ++ wordEdge ++ lit v ++ wordEdge ++
        star (one (· != '}')) ++ char '}') ||| lit v) ++
    blanks1 ++ lit "from" ++ blanks1 ++ anyQuote ++ capture 1 (plus (noneOf "\"'\x60")) ++ anyQuote

/-- Another file loaded into the variable. -/
def variableRequire (v : String) : Pattern :=
  oneOfTexts ["const", "let", "var"] ++ blanks1 ++ lit v ++ blanks ++ char '=' ++ blanks ++
    lit "require" ++ blanks ++ char '(' ++ blanks ++ anyQuote ++
    capture 1 (plus (noneOf "\"'\x60")) ++ anyQuote

/-- The file from which a variable is imported or loaded.  The first pattern that matches decides,
also if it leads nowhere. -/
def resolveRouter? (content : List Char) (v file : String) (tree : FileTree) : Option String :=
  match ((variableImport v).search content).or ((variableRequire v).search content) with
  | some m => resolveRelative? (m.name 1) file tree
  | none => none

/-! ## Building an index -/

/-- What is read off one source file. -/
structure RouterFile where
  /-- The path of the file. -/
  path : String
  /-- Its text. -/
  content : List Char

/-- The mount path of each router file; the last mount of a file counts. -/
def mountPaths (files : List RouterFile) (tree : FileTree) : Catalog String :=
  Catalog.ofList
    ((files.flatMap fun f =>
      (mounts f.content f.path).filterMap fun m =>
        (resolveRouter? f.content m.routerVariable f.path tree).map fun target =>
          (target, m.path)))

/-- The route under the mount path of its file. -/
def mounted (paths : Catalog String) (route : CallRoute) : CallRoute :=
  match paths.find? route.filePath with
  | some path => { route with url := normalizePath (path ++ route.url), mountPath := some path }
  | none => { route with url := normalizePath route.url }

/-- The index of the routes that the files register. -/
def CallIndex.ofFiles (framework : Framework) (files : List RouterFile) (tree : FileTree) :
    CallIndex :=
  let paths := mountPaths files tree
  ((files.flatMap fun f => declaredRoutes f.content f.path).map (mounted paths)).foldl
    CallIndex.add (CallIndex.empty framework)

/-! ## Matching -/

/-- Whether two lists of segments agree when a segment of the first that starts with a colon stands
for any segment. -/
def fits : List String → List String → Bool
  | [], [] => true
  | p :: pattern, c :: concrete => (stringBegins ":" p || p == c) && fits pattern concrete
  | _, _ => false

/-- The URL under which the routes for a URL are registered: the URL itself, or else the first one
that fits with parameters in the route, or else with parameters in the plan. -/
def CallIndex.match? (index : CallIndex) (url : String) : Option String :=
  if index.routes.contains url then some url
  else
    let wanted := properSegments url
    (index.routes.names.find? fun path => fits (properSegments path) wanted).or
      (index.routes.names.find? fun path => fits wanted (properSegments path))

end PlanAudit.Routes
