import PlanAudit.Packages.Manifest
import PlanAudit.Routes.AppRouter
import PlanAudit.Routes.CallRouter

/-!
# Routes of a project

## Main definitions

* `AppIndex.ofProject`: the routes of the application router
* `Framework.ofProject`: which call-based routers the project uses
* `CallIndex.ofProject`: the routes of the call-based routers
-/

namespace PlanAudit.Routes

open PlanAudit.Text

/-- The route that a file serves, with the methods of its text if it is one. -/
def appRoute? (p : Project) (path : String) : Option AppRoute :=
  if routeFile.occursIn path.toList then
    (urlOfFile? path).map fun url =>
      ⟨url, path, ((p.readText? path).map exportedMethods).getD []⟩
  else none

/-- The routes of the application router; of several files with the same URL the last counts. -/
def AppIndex.ofProject (p : Project) (tree : FileTree) : AppIndex :=
  Catalog.ofList ((tree.paths.filterMap (appRoute? p)).map fun route => (route.url, route))

/-- The router that the packages needed by a project tell. -/
def Framework.ofDependencies (packages : List String) : Framework :=
  match packages.contains "express", packages.contains "fastify" with
  | true, true => .both
  | true, false => .express
  | false, true => .fastify
  | false, false => .neither

/-- Which call-based routers a project uses. -/
def Framework.ofProject (p : Project) : Except Fault Framework :=
  (Packages.manifest? p.files p.directory).map fun manifest =>
    .ofDependencies ((manifest.map Packages.dependencies).getD [])

/-- The files in which routes are looked for; declaration files are left out. -/
def sourceFiles (tree : FileTree) : List String :=
  (tree.withExtension [".ts", ".js", ".tsx", ".jsx"]).filter fun path => !stringEnds ".d.ts" path

/-- The routes of the call-based routers of a project; there are none without such a router. -/
def CallIndex.ofProject (p : Project) (tree : FileTree) : Except Fault CallIndex :=
  (Framework.ofProject p).map fun
    | .neither => .empty .neither
    | framework =>
      .ofFiles framework ((p.texts (sourceFiles tree)).map fun file => ⟨file.1, file.2⟩) tree

end PlanAudit.Routes
