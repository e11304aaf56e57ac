import PlanAudit.Checker.Run
import PlanAudit.CommandLine.Request
import PlanAudit.Json.Writer
import PlanAudit.Report.Machine
import PlanAudit.Report.Markdown
import PlanAudit.Report.Text
import PlanAudit.Workspace

/-!
# Carrying out a command line

## Main definitions

* `Reply`: what the program prints and exits with
* `reply`: the reply to a command line
-/

namespace PlanAudit.CommandLine

open Text

/-- What the program prints and exits with. -/
structure Reply where
  /-- The exit code. -/
  exitCode : Nat := 0
  /-- What is printed. -/
  output : String := ""
  /-- What is printed among the errors. -/
  errors : String := ""
  /-- How tools are to be served, if they are. -/
  server : Option Transport := none
  deriving DecidableEq, Repr

/-- The reply that something printed answers the request. -/
def Reply.printed (text : String) : Reply := { output := text }

/-- The reply that the request failed. -/
def Reply.failed (message : String) : Reply :=
  { exitCode := 1, errors := "Error: " ++ message ++ "\n" }

/-- The report on some runs, made at the given time. -/
def reportIn (format : ReportFormat) (project time : String) (runs : List Run) : String :=
  match format with
  | .text => textReport runs
  | .json => (jsonReport project time runs).indented
  | .markdown => markdownReport project runs
  | .findings => findingsContext runs

/-- The plan of a request: its file or, without one, the input. -/
def planOf (w : Workspace) (c : CheckRequest) (input : List Char) :
    Except Workspace.Missing (List Char) :=
  match c.plan.filter (· != "") with
  | some path => w.loadPlan path
  | none => .ok input

/-- The options of a request. -/
def optionsOf (w : Workspace) (s : Settings) (c : CheckRequest) : CheckOptions :=
  s.checkOptions
    { schemaPath := (c.schema.filter (· != "")).map fun path =>
        (w.files.realPath (w.written path)).toString
      allowedNew := c.allowedNew
      includeExperimental := c.experimental }

/-- The reply to the request to check a plan. -/
def checkReply (w : Workspace) (s : Settings) (c : CheckRequest) (input : List Char)
    (time : String) : Reply :=
  let found : Except Workspace.Missing (List Char × Project) :=
    (planOf w c input).bind fun plan => (w.project c.project).map fun project => (plan, project)
  match found with
  | .error missing => .failed missing.message
  | .ok (plan, project) =>
    if plan.all isBlank then .failed "no plan provided"
    else
      let runs := (runChecks .builtin ⟨plan, project, optionsOf w s c⟩ .empty).1
      { exitCode := exitCode runs, output := reportIn c.format project.name time runs ++ "\n" }

/-- The reply to a command line.  Settings are read first by everything but help and version. -/
def reply (w : Workspace) (arguments : List String) (input : List Char) (time : String) :
    Except Fault Reply :=
  match parse arguments with
  | .error (.help text) => .ok (.printed text)
  | .error (.usage program e) =>
    .ok { exitCode := 2, errors := program ++ ": error: " ++ e.message ++ "\n" }
  | .ok .version => .ok (.printed (programName ++ " " ++ programVersion ++ "\n"))
  | .ok request =>
    (w.settings []).map fun s =>
      match request with
      | .check c => checkReply w s c input time
      | .serve t => { server := some t }
      | _ => .printed overviewText

end PlanAudit.CommandLine
