import PlanAudit.Files.Project
import PlanAudit.Json.Reader
import PlanAudit.Packages.Subpaths

/-!
# Manifests of packages

Each package has a manifest, a JSON object in a file of its directory.  A manifest that is written
wrongly counts as missing, but a number of too many digits in it is a fault.  Its values may be
nested at will: a depth at which a reader gives up is left out.

## Main definitions

* `manifestOf`: the manifest that a text holds
* `manifest?`: the manifest of a directory
* `dependencies`: the packages that a manifest names as needed
* `exports?`: the subpaths that a package exports
* `installed`: the packages in a directory
-/

namespace PlanAudit.Packages

open PlanAudit.Text

/-- The name of the file that holds the manifest. -/
def manifestName : String := "package.json"

/-- The manifest that a text holds, if it holds an object. -/
def manifestOf (text : List Char) : Except Fault (Option Json) :=
  match Json.parse .lenient text with
  | .ok j => .ok (if j.isObject then some j else none)
  | .error .malformed => .ok none
  | .error (.tooManyDigits count) => .error (.tooManyDigits count)

/-- The manifest of a directory, if it has one that is an object. -/
def manifest? (files : FileSystem) (directory : Path) : Except Fault (Option Json) :=
  match files.readText? (directory.join manifestName) with
  | some text => manifestOf text
  | none => .ok none

/-- The packages that a manifest names as needed. -/
def dependencies (manifest : Json) : List String :=
  ["dependencies", "devDependencies"].flatMap fun field =>
    ((manifest.member? field).map fun packages => packages.members.map (·.1)).getD []

/-- The subpaths that the package in the directory exports; nothing is known of them if its
manifest does not list them. -/
def exports? (files : FileSystem) (directory : Path) : Except Fault (Option (List String)) :=
  (manifest? files directory).map fun manifest =>
    (manifest.bind (·.member? "exports")).map exportedSubpaths

/-- The names in a directory of packages that do not start with a dot. -/
def installed (files : FileSystem) (directory : Path) : List String :=
  (files.names directory).filter fun name => !stringBegins "." name

end PlanAudit.Packages
