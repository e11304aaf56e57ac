import PlanAudit.Catches.Log
import PlanAudit.Checker.Run
import PlanAudit.Report.Markdown
import PlanAudit.Workspace

/-!
# Checkers as tools

A server offers every checker as a tool, and one tool for all of them.  A tool answers with a text.
What is known of installed packages is remembered from one call to the next, and what a call found
is logged if the settings say so.

## Main definitions

* `Tool`: the tools
* `ToolCall`: what a tool is asked
* `Server`: the state of a server
* `Server.call`: the answer of a tool, and the server after it
-/

namespace PlanAudit

open Text

/-! ## Tools -/

/-- A tool: one checker, or all of them. -/
inductive Tool where
  /-- The checker with the identifier. -/
  | one (checker : String)
  /-- All checkers that take part. -/
  | all
  deriving DecidableEq, Repr

namespace Tool

/-- The names of the tools. -/
def names : List (String × Tool) :=
  [("check_paths", one "paths"), ("check_schema", one "schema"),
    ("check_sql_schema", one "sqlSchema"), ("check_supabase_schema", one "supabaseSchema"),
    ("check_imports", one "imports"), ("check_env", one "env"), ("check_types", one "types"),
    ("check_routes", one "routes"), ("check_express_routes", one "expressRoutes"),
    ("check_package_api", one "packageApi"), ("check_all", all)]

/-- The tool with the name. -/
def ofName? (name : String) : Option Tool := names.lookup name

/-- The name of the tool in the catch log. -/
def logName : Tool → String
  | one checker => checker
  | all => "check_all"

end Tool

/-- What a tool is asked. -/
structure ToolCall where
  /-- The text of the plan. -/
  plan : List Char
  /-- The written path of the project. -/
  project : String
  /-- What the caller chooses. -/
  options : CallOptions := {}

/-- What a tool says if its checker does not apply, where there is something to say. -/
def notApplicableTexts : List (String × String) :=
  [("schema", "No Prisma schema found. Pass schema_path or add prisma/schema.prisma."),
    ("sqlSchema", "No Drizzle tables or SQL migrations found."),
    ("imports", "No node_modules directory found. Install dependencies."),
    ("env", "No .env files found in project."),
    ("types", "No TypeScript type declarations found in project."),
    ("routes", "No Next.js App Router route handlers found."),
    ("supabaseSchema", "No Supabase generated types file found."),
    ("expressRoutes", "No Express or Fastify routes found."),
    ("packageApi", "No installed package declarations resolved for the plan's imports.")]

/-- What a tool says if its checker does not apply. -/
def notApplicableText (c : Checker) : String :=
  (notApplicableTexts.lookup c.id).getD (c.displayName ++ ": not applicable.")

/-- The text of the lines without white space at the end. -/
def sectionText (lines : List String) : String :=
  String.ofList (stripEnd ("\n".intercalate lines).toList)

/-- What the tool of a checker says of its outcome. -/
def toolText (c : Checker) (outcome : Outcome) : String :=
  if outcome.result.applicable then sectionText outcome.lines else notApplicableText c

/-! ## The server -/

/-- The state of a server. -/
structure Server where
  /-- Where the server works. -/
  workspace : Workspace
  /-- What is remembered of installed packages. -/
  cache : Packages.ApiCache := .empty

namespace Server

/-- The server without what it remembers. -/
def forget (s : Server) : Server := { s with cache := .empty }

/-- The server after the runs of a tool are logged, if the settings say so. -/
def record (s : Server) (settings : Settings) (tool project time : String) (runs : List Run) :
    Server :=
  if settings.logCatches then
    let files := logCatch (.ofRuns time tool project runs) (s.workspace.catchPlace settings)
      s.workspace.files
    { s with workspace := { s.workspace with files := files } }
  else s

/-- What a tool finds out about a project, with the answer made of it, and what is remembered. -/
def findOut (tool : Tool) (audit : Audit) (cache : Packages.ApiCache) :
    Except Fault (String × List Run × Packages.ApiCache) :=
  match tool with
  | .all =>
    let (runs, cache) := runChecks .builtin audit cache
    .ok (markdownReport audit.project.name runs, runs, cache)
  | .one id =>
    (Registry.builtin.get id).map fun c =>
      let (outcome, cache) := runChecker c audit cache
      (toolText c outcome, [⟨c.id, c.displayName, outcome⟩], cache)

/-- The answer of a tool, and the server after it. -/
def call (s : Server) (tool : Tool) (c : ToolCall) (time : String) :
    Except Fault (String × Server) :=
  match s.workspace.project c.project with
  | .error missing => .ok ("Error: " ++ missing.message, s)
  | .ok project =>
    (s.workspace.settings []).bind fun settings =>
      (findOut tool ⟨c.plan, project, settings.checkOptions c.options⟩ s.cache).map
        fun (answer, runs, cache) =>
          (answer, { s with cache := cache }.record settings tool.logName project.name time runs)

/-- What a checker rejects in a plan for the project in a directory, without any choices; and the
server after it. -/
def rejections (s : Server) (id : String) (plan : List Char) (project : Project) :
    Except Fault (List Hallucination × Server) :=
  (Registry.builtin.get id).map fun c =>
    let (outcome, cache) := runChecker c ⟨plan, project, {}⟩ s.cache
    (outcome.result.hallucinations, { s with cache := cache })

end Server

end PlanAudit
