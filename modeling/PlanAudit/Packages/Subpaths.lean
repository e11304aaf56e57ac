import PlanAudit.Json.Basic
import PlanAudit.Pattern.Build

/-!
# Subpaths that a package exports

The `exports` of a package manifest list subpaths, which may contain a wildcard, and conditions
under which they apply.

## Main definitions

* `exportedSubpaths`: the subpaths that the `exports` of a manifest list
* `matchesSubpath`: whether a requested subpath is among them
-/

namespace PlanAudit.Packages

open PlanAudit.Text Pattern

mutual

/-- The subpaths among the members of an `exports` object; other names are conditions, whose
objects are searched in turn. -/
def memberSubpaths : List (String × Json) → List String
  | [] => []
  | (name, value) :: rest =>
    (if stringBegins "." name then [name] else conditionSubpaths value) ++ memberSubpaths rest

/-- The subpaths under a condition. -/
def conditionSubpaths : Json → List String
  | .object members => memberSubpaths members
  | _ => []

end

/-- The subpaths that the `exports` of a manifest list; a string exports the root alone. -/
def exportedSubpaths : Json → List String
  | .string _ => ["."]
  | j => firstPerKey id (conditionSubpaths j)

/-- The pattern for a subpath with wildcards, each of which stands for one segment. -/
def wildcardPattern (subpath : String) : Pattern :=
  chain ((subpath.toList.map fun c => if c == '*' then plus (one (· != '/')) else char c) ++
    [textEnd])

/-- Whether a subpath with a wildcard admits the requested one.  A wildcard after the last slash
admits any number of segments. -/
def admits (pattern requested : String) : Bool :=
  stringContains "*" pattern &&
    ((stringEnds "/*" pattern && stringBegins (withoutEnd "*" pattern) requested) ||
      (wildcardPattern pattern).matchesStart requested.toList)

/-- Whether the subpath is among the exported ones. -/
def matchesSubpath (subpath : String) (exported : List String) : Bool :=
  let requested := "./" ++ subpath
  exported.contains requested || exported.any (admits · requested)

end PlanAudit.Packages
