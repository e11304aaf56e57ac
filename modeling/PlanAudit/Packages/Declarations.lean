import PlanAudit.Packages.Manifest

/-!
# Declaration files of packages

The exports of a package are declared in a file that its manifest names in one of several ways; a
package without such a file may have a companion package that holds the declarations.

## Main definitions

* `conditionTypings?`: the declaration file under the conditions of an export
* `ownTypings?`: the declaration file that a package itself holds
* `companion?`: the companion package of a package
* `typings?`: the declaration file of a package
-/

namespace PlanAudit.Packages

open PlanAudit.Text Pattern

/-- The endings of declaration files, in the order in which they are tried. -/
def declarationEndings : List String := [".d.ts", ".d.cts", ".d.mts"]

/-- Whether the path is that of a declaration file. -/
def isDeclarationFile (path : String) : Bool := declarationEndings.any (stringEnds · path)

/-- The place, if there is a file. -/
def existing? (files : FileSystem) (place : Path) : Option Path :=
  if files.isFile place then some place else none

/-- The first file that one of the endings makes of a written path. -/
def withEnding? (files : FileSystem) (base : String) : Option Path :=
  declarationEndings.findSome? fun ending => existing? files (.ofString (base ++ ending))

/-! ## Entries that the manifest names -/

mutual

/-- The declaration file under the conditions of an export, found by `find`: the one named for
types, or else the first under a condition with conditions of its own. -/
def conditionTypings? (find : String → Option Path) : Json → Option Path
  | .string s => if isDeclarationFile s then find s else none
  | .object members =>
    ((members.lookup "types").bind (·.string?.bind find)).or (memberTypings? find members)
  | _ => none

/-- The declaration file under the first of the conditions that has one. -/
def memberTypings? (find : String → Option Path) : List (String × Json) → Option Path
  | [] => none
  | (name, value) :: rest =>
    (if name != "types" && value.isObject then conditionTypings? find value else none).or
      (memberTypings? find rest)

end

/-- The declaration file that the exports of a manifest name for the root of the package. -/
def exportedTypings? (find : String → Option Path) (manifest : Json) : Option Path :=
  match manifest.member? "exports" with
  | some (.object members) =>
    conditionTypings? find ((members.lookup ".").getD (.object members))
  | _ => none

/-- The ending of a source file. -/
def sourceEnding : Pattern :=
  char '.' ++ oneOfTexts ["js", "cjs", "mjs", "ts", "cts", "mts"] ++ textEnd

/-- The ending of a compiled file. -/
def compiledEnding : Pattern := char '.' ++ oneOfTexts ["js", "cjs", "mjs"] ++ textEnd

/-- The written path without an ending. -/
def withoutEnding (ending : Pattern) (place : Path) : String :=
  String.ofList (ending.replaceAll [] place.toString.toList)

/-- The declaration file beside the main file that a manifest names. -/
def mainTypings? (files : FileSystem) (directory : Path) (manifest : Json) : Option Path :=
  ((manifest.member? "main").bind (·.string?)).bind fun main =>
    withEnding? files (withoutEnding sourceEnding (directory.join main))

/-- The declaration file of a directory by convention. -/
def indexTypings? (files : FileSystem) (directory : Path) : Option Path :=
  declarationEndings.findSome? fun ending => existing? files (directory.join ("index" ++ ending))

/-- The declaration file that a package itself holds, given its manifest: the one for the root
export, the one named for types, the one beside the main file, or the one by convention. -/
def ownTypings? (files : FileSystem) (directory : Path) (manifest : Json) : Option Path :=
  let find (s : String) := existing? files (directory.join s)
  let named (field : String) := ((manifest.member? field).bind (·.string?)).bind find
  (exportedTypings? find manifest).or ((named "types").or ((named "typings").or
    ((mainTypings? files directory manifest).or (indexTypings? files directory))))

/-! ## Companion packages -/

/-- The directory of the companion of the package in a directory; a scope becomes part of its
name. -/
def companion (directory : Path) : Path :=
  let above := directory.parent
  if stringBegins "@" above.fileName then
    above.parent ++ ["@types", dropString 1 above.fileName ++ "__" ++ directory.fileName]
  else above ++ "@types" :: directory.getLast?.toList

/-- The companion of the package in a directory, if it is installed and another package. -/
def companion? (files : FileSystem) (directory : Path) : Option Path :=
  let other := companion directory
  if other != directory && files.isDirectory other then some other else none

/-- The declaration file of a package or of the companions behind it, of which at most the given
number is tried. -/
def typingsWithin? (files : FileSystem) : Nat → Path → Except Fault (Option Path)
  | 0, _ => .ok none
  | companions + 1, directory =>
    (manifest? files directory).bind fun
      | none => .ok none
      | some manifest =>
        match ownTypings? files directory manifest, companion? files directory with
        | some found, _ => .ok (some found)
        | none, some other => typingsWithin? files companions other
        | none, none => .ok none

/-- A bound for the number of packages behind each other: each companion but the first, or the first
two where the root of the file system is a package, lies in a directory of its own name, and every
name is longer than the one before. -/
def companionBound (files : FileSystem) : Nat := files.entries.length + 3

/-- The declaration file of the package in a directory. -/
def typings? (files : FileSystem) (directory : Path) : Except Fault (Option Path) :=
  typingsWithin? files (companionBound files) directory

end PlanAudit.Packages
