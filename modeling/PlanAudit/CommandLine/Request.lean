import PlanAudit.CommandLine.Words

/-!
# Requests of a command line

The program has two commands, one that checks a plan and one that serves the checkers as tools.

## Main definitions

* `Request`: what a command line asks for
* `parse`: the request of a command line, or why there is none
-/

namespace PlanAudit.CommandLine

open Text

/-! ## Requests -/

/-- The layout of a report. -/
inductive ReportFormat where
  | text
  | json
  | markdown
  | findings
  deriving DecidableEq, Repr

/-- The name of a layout. -/
def ReportFormat.label : ReportFormat → String
  | text => "text"
  | json => "json"
  | markdown => "markdown"
  | findings => "findings"

/-- All layouts. -/
def ReportFormat.all : List ReportFormat := [text, json, markdown, findings]

/-- The layout with the name. -/
def ReportFormat.ofLabel? (label : String) : Option ReportFormat :=
  all.find? (·.label == label)

/-- The request to check a plan. -/
structure CheckRequest where
  /-- The file of the plan; without one it is read from the input. -/
  plan : Option String
  /-- The directory of the project. -/
  project : String
  /-- The layout of the report. -/
  format : ReportFormat
  /-- The file of the Prisma schema. -/
  schema : Option String
  /-- The shapes of paths that the plan may create. -/
  allowedNew : List String
  /-- Whether experimental checkers take part. -/
  experimental : Bool
  /-- Whether everything is written to the log. -/
  verbose : Bool
  deriving DecidableEq, Repr

/-- How tools are served. -/
inductive Transport where
  /-- Over the input and output of the program. -/
  | stdio
  /-- Over the network. -/
  | sse (host : String) (port : Int)
  deriving DecidableEq, Repr

/-- What a command line asks for. -/
inductive Request where
  /-- The version. -/
  | version
  /-- What the program can do. -/
  | overview
  /-- To check a plan. -/
  | check (c : CheckRequest)
  /-- To serve the checkers as tools. -/
  | serve (t : Transport)
  deriving DecidableEq, Repr

/-! ## Flags -/

/-- The flag that asks for the version. -/
def versionFlag : Flag := { names := ["--version"] }

/-- The flag for the file of the plan. -/
def planFlag : Flag := { names := ["--plan"], value := some .any }

/-- The flag for the directory of the project. -/
def projectFlag : Flag := { names := ["--project", "-p"], value := some .any }

/-- The flag for the layout of the report. -/
def formatFlag : Flag :=
  { names := ["--format", "-f"], value := some (.oneOf (ReportFormat.all.map (·.label))) }

/-- The flag for the file of the Prisma schema. -/
def schemaFlag : Flag := { names := ["--schema"], value := some .any }

/-- The flag for a shape of paths that the plan may create. -/
def allowNewFlag : Flag := { names := ["--allow-new"], value := some .any }

/-- The flag that asks for experimental checkers. -/
def experimentalFlag : Flag := { names := ["--experimental"] }

/-- The flag that asks for everything in the log. -/
def verboseFlag : Flag := { names := ["--verbose", "-v"] }

/-- The flag for the way in which tools are served. -/
def transportFlag : Flag :=
  { names := ["--transport", "-t"], value := some (.oneOf ["stdio", "sse"]) }

/-- The flag for the host of the server. -/
def hostFlag : Flag := { names := ["--host"], value := some .any }

/-- The flag for the port of the server. -/
def portFlag : Flag := { names := ["--port"], value := some .whole }

/-! ## Help -/

/-- The name of the program. -/
def programName : String := "planproof"

/-- The version of the program. -/
def programVersion : String := "0.1.0"

/-- Lines of text. -/
def textOfLines (lines : List String) : String := String.join (lines.map (· ++ "\n"))

/-- What the program can do. -/
def overviewText : String := textOfLines
  ["usage: planproof [-h] [--version] \x7bcheck,mcp\x7d ...",
    "",
    "Verify an implementation plan against the real state of a project.",
    "",
    "positional arguments:",
    "  \x7bcheck,mcp\x7d",
    "    check      Check a plan for hallucinated references",
    "    mcp        Start MCP server",
    "",
    "options:",
    "  -h, --help   show this help message and exit",
    "  --version    Print version and exit"]

/-- What the command that checks a plan can do. -/
def checkHelp : String := textOfLines
  ["usage: planproof check [-h] [--plan PLAN] [--project PROJECT]",
    "                       [--format \x7btext,json,markdown,findings\x7d]",
    "                       [--schema SCHEMA] [--allow-new GLOB] [--experimental]",
    "                       [--verbose]",
    "",
    "options:",
    "  -h, --help            show this help message and exit",
    "  --plan PLAN           Path to the plan file (default: read stdin)",
    "  --project PROJECT, -p PROJECT",
    "                        Project directory (default: current directory)",
    "  --format \x7btext,json,markdown,findings\x7d, -f \x7btext,json,markdown,findings\x7d",
    "                        Report format (default: text)",
    "  --schema SCHEMA       Path to the Prisma schema file",
    "  --allow-new GLOB      Glob of paths the plan may create (repeatable)",
    "  --experimental        Also run experimental checkers",
    "  --verbose, -v         Enable debug logging"]

/-- What the command that serves tools can do. -/
def serveHelp : String := textOfLines
  ["usage: planproof mcp [-h] [--transport \x7bstdio,sse\x7d] [--host HOST]",
    "                     [--port PORT]",
    "",
    "options:",
    "  -h, --help            show this help message and exit",
    "  --transport \x7bstdio,sse\x7d, -t \x7bstdio,sse\x7d",
    "                        Transport protocol (default: stdio)",
    "  --host HOST           Bind address for SSE transport (default: 127.0.0.1)",
    "  --port PORT           Port for SSE transport (default: 8001)"]

/-! ## Commands -/

/-- A command of the program. -/
structure Command where
  /-- The name of the command. -/
  name : String
  /-- The flags that it knows. -/
  flags : List Flag
  /-- What it can do. -/
  help : String
  /-- The request that its words make. -/
  request : Settled → Request

/-- The command that checks a plan. -/
def checkCommand : Command :=
  { name := "check"
    flags := [helpFlag, planFlag, projectFlag, formatFlag, schemaFlag, allowNewFlag,
      experimentalFlag, verboseFlag]
    help := checkHelp
    request := fun s => .check
      { plan := s.valueOf? planFlag
        project := (s.valueOf? projectFlag).getD "."
        format := ((s.valueOf? formatFlag).bind ReportFormat.ofLabel?).getD .text
        schema := s.valueOf? schemaFlag
        allowedNew := s.valuesOf allowNewFlag
        experimental := s.has experimentalFlag
        verbose := s.has verboseFlag } }

/-- The command that serves the checkers as tools. -/
def serveCommand : Command :=
  { name := "mcp"
    flags := [helpFlag, transportFlag, hostFlag, portFlag]
    help := serveHelp
    request := fun s => .serve
      (if s.valueOf? transportFlag = some "sse" then
        .sse ((s.valueOf? hostFlag).getD "127.0.0.1")
          (((s.valueOf? portFlag).bind Number.ofNumeral?).getD 8001)
      else .stdio) }

/-- All commands. -/
def commands : List Command := [checkCommand, serveCommand]

/-! ## Reading a command line -/

/-- Why a command line is not carried out. -/
inductive Refused where
  /-- It asks for this help. -/
  | help (text : String)
  /-- It holds a mistake, which the named program or command finds. -/
  | usage (program : String) (e : UsageError)
  deriving DecidableEq, Repr

/-- A stop, with the help or under the name of what was asked. -/
def Stop.refused (program help : String) : Stop → Refused
  | .help => .help help
  | .mistake e => .usage program e

/-- The request, unless there are words that mean nothing. -/
def unlessExtras (extras : List String) (r : Request) : Except Refused Request :=
  if extras.isEmpty then .ok r else .error (.usage programName (.unrecognized extras))

/-- What the words after the name of a command come to. -/
def Command.read (c : Command) (words : List String) : Except Refused Settled :=
  (readWords c.flags false words).mapError (Stop.refused (programName ++ " " ++ c.name) c.help)

/-- The request of a command line. -/
def parse (arguments : List String) : Except Refused Request :=
  ((readWords [helpFlag, versionFlag] true arguments).mapError
    (Stop.refused programName overviewText)).bind fun top =>
      match top.command with
      | none =>
        unlessExtras top.extras (if top.has versionFlag then .version else .overview)
      | some words =>
        let name := words.headD ""
        match commands.find? (·.name == name) with
        | none => .error (.usage programName (.badChoice "command" name (commands.map (·.name))))
        | some c =>
          (c.read (words.drop 1)).bind fun s =>
            unlessExtras (top.extras ++ s.extras)
              (if top.has versionFlag then .version else c.request s)

end PlanAudit.CommandLine
