import PlanAudit.Text.Basic

/-!
# Written patterns

The written form of a pattern that matches one of some fixed names: the names with a backslash
before each character that has a meaning in a pattern, separated by vertical bars.

## Main definitions

* `escaped`: a name with its special characters escaped
* `writtenAlternatives`: the pattern for any of several names
-/

namespace PlanAudit.Pattern

/-- The characters that are written with a backslash before them. -/
def specialChars : List Char := "()[]\x7b\x7d?*+-|^$\\.&~# \t\n\r\x0b\x0c".toList

/-- The name with a backslash before each special character. -/
def escaped (name : String) : String :=
  String.ofList (name.toList.flatMap fun c => if specialChars.contains c then ['\\', c] else [c])

/-- The written form of the pattern that matches any of the names. -/
def writtenAlternatives (names : List String) : String :=
  "|".intercalate (names.map escaped)

end PlanAudit.Pattern
