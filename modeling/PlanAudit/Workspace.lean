import PlanAudit.Files.Project
import PlanAudit.Settings.Assignments
import PlanAudit.Settings.Fields

/-!
# Workspaces

A request is made from a directory of a file system, with variables that hold settings and name the
home directory.

## Main definitions

* `Workspace`: where a request is made from
* `Workspace.place`: the place of a path that a user writes
* `Workspace.settings`: the settings that hold there
* `Workspace.project`, `Workspace.loadPlan`: the project and the plan of a request
-/

namespace PlanAudit

open Text

/-- Where a request is made from. -/
structure Workspace where
  /-- The file system. -/
  files : FileSystem
  /-- The directory from which written paths are seen. -/
  directory : Path
  /-- The variables with their values. -/
  environment : List (String × String)
  /-- The usual place of the catch log. -/
  catchLog : Path

namespace Workspace

/-! ## Paths -/

/-- The home directory. -/
def home (w : Workspace) : Path := w.directory.join ((w.environment.lookup "HOME").getD "")

/-- The place of a written path, as it is written. -/
def written (w : Workspace) (path : String) : Path := w.directory.join path

/-- The place of a path that a user writes: a tilde at its start is the home directory, and links
are followed. -/
def place (w : Workspace) (path : String) : Path :=
  match stringBegins "/" path, Path.writtenSegments path with
  | false, "~" :: rest => w.files.realPath (w.home ++ rest)
  | _, _ => w.files.realPath (w.written path)

/-! ## Settings -/

/-- What the names of variables that hold settings begin with, in lower case. -/
def settingPrefix : String := "planproof_"

/-- The settings that variables give.  Their names may be in either case; of two that differ only in
case, the later one counts. -/
def givenBy (assigned : List (String × Option String)) : Settings.Given :=
  let values : Catalog (Option String) :=
    .ofList (assigned.map fun v => (lowerCase v.1, v.2))
  Settings.fieldNames.filterMap fun name =>
    match values.find? (settingPrefix ++ name) with
    | some (some value) => some (name, .string value)
    | _ => none

/-- The name of the file of assignments that holds settings. -/
def settingsFile : String := ".env"

/-- The assignments of the file of settings, if there is one. -/
def assigned (w : Workspace) : Except Fault (List (String × Option String)) :=
  match w.files.content? (w.written settingsFile) with
  | none => .ok []
  | some content =>
    match content.read? with
    | some text => .ok (Settings.assignedValues w.environment text).entries
    | none => .error .undecodable

/-- The settings: those given, then those of variables, then those of the file of settings. -/
def settings (w : Workspace) (given : Settings.Given) : Except Fault Settings :=
  w.assigned.bind fun assigned =>
    Settings.settingsOf
      (given ++ givenBy (w.environment.map fun v => (v.1, some v.2)) ++ givenBy assigned)

/-- The place of the catch log. -/
def catchPlace (w : Workspace) (s : Settings) : Path :=
  match s.catchesFile with
  | some path => w.written path
  | none => w.catchLog

/-! ## Requests -/

/-- What is named in a request and not there. -/
inductive Missing where
  /-- The file of the plan. -/
  | plan (place : Path)
  /-- The directory of the project. -/
  | project (place : Path)
  deriving DecidableEq, Repr

/-- What is said of something that is not there. -/
def Missing.message : Missing → String
  | .plan place => "plan file not found: " ++ place.toString
  | .project place => "project directory not found: " ++ place.toString

/-- The project in the directory that a user writes. -/
def project (w : Workspace) (path : String) : Except Missing Project :=
  let place := w.place path
  if w.files.isDirectory place then .ok ⟨w.files, place⟩ else .error (.project place)

/-- The text of the plan in the file that a user writes; what is no text in it is replaced. -/
def loadPlan (w : Workspace) (path : String) : Except Missing (List Char) :=
  let place := w.place path
  match w.files.content? place with
  | some content => .ok content.readLenient
  | none => .error (.plan place)

end Workspace

end PlanAudit
