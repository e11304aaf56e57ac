import PlanAudit.Pattern.Build
import PlanAudit.Reference

/-!
# File paths in a plan

A path is a token of path characters with a directory and a file extension, set off from the text
around it.

## Main definitions

* `pathToken`: the tokens that may be paths
* `looksLikeFile`: what tells a path from a version number, a property chain or a placeholder
* `mentions`: the paths that a plan mentions
-/

namespace PlanAudit.Paths

open PlanAudit.Text Pattern

/-- A character that a path may hold. -/
def isPathChar (c : Char) : Bool := isWordAscii c || c == '.' || c == '/' || c == '\\' || c == '-'

/-- A character that may stand before a path. -/
def opensPath (c : Char) : Bool := isBlankAscii c || "\x60\"'(,".toList.contains c

/-- A character that may stand after a path. -/
def closesPath (c : Char) : Bool := isBlankAscii c || "\x60\"'),;:]|".toList.contains c

/-- The position after a path. -/
def pathEdge : Pattern := here fun _ rest => rest.isEmpty || rest.head?.any closesPath

/-- A path with an extension of at most ten characters. -/
def pathToken : Pattern :=
  (lineStart ||| one opensPath) ++
    capture 1 (plus (one isPathChar) ++ char '.' ++ loop true 1 (some 10) (one isWordAscii)) ++
    pathEdge

/-- A version number at the start of a text. -/
def versionNumber : Pattern := plus (one isDigitAscii) ++ char '.' ++ one isDigitAscii

/-- Names of values whose properties are not files. -/
def propertyOwners : List String :=
  ["this", "self", "error", "result", "config", "options", "req", "res", "ctx"]

/-- The start of a chain of properties. -/
def propertyChain : Pattern := oneOfTextsAnyCase propertyOwners ++ char '.'

/-- Whether the text starts with four capital letters, like the placeholder of a path. -/
def startsWithCapitals (path : List Char) : Bool := 4 ≤ (path.takeWhile isUpperAscii).length

/-- Whether a token is the path of a file of the project. -/
def looksLikeFile (path : List Char) : Bool :=
  path.contains '/' && !versionNumber.matchesStart path &&
    !beginsWith "node_modules/".toList path && !propertyChain.matchesStart path &&
    !beginsWith "...".toList path && !startsWithCapitals path

/-- The path with forward slashes and without a leading `./`. -/
def normalizePath (token : List Char) : List Char :=
  let path := token.map fun c => if c == '\\' then '/' else c
  if beginsWith "./".toList path then path.drop 2 else path

/-- The mention made by a token, if it looks like a file. -/
def mentionOf? (m : Match) : Option Mention :=
  let path := normalizePath (m.group 1)
  let name := String.ofList path
  if looksLikeFile path then
    some { raw := name, kind := .path, offset := some (m.groupStart 1), name := some name }
  else none

/-- The paths that the plan mentions, each once. -/
def mentions (plan : List Char) : List Mention :=
  firstPerKey Mention.raw ((pathToken.findAll plan).filterMap mentionOf?)

end PlanAudit.Paths
