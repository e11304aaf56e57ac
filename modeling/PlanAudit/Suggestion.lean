import PlanAudit.Text.Basic

/-!
# Suggestions

A rejected name comes with a suggestion: the first known name of which one contains the other when
case is ignored.  There is no ranking; candidates come in the order of their index.

## Main definitions

* `suggest`: the first candidate that overlaps a name
* `suggestionNote`: a suggestion as people read it
-/

namespace PlanAudit

open Text

/-- Whether one of the names contains the other when case is ignored. -/
def overlaps (name other : String) : Bool :=
  let a := lower name.toList
  let b := lower other.toList
  contains a b || contains b a

/-- The first candidate that overlaps the name. -/
def suggest (name : String) (candidates : List String) : Option String :=
  candidates.find? (overlaps name)

/-- A suggestion as people read it: a bare name becomes a question, a sentence stays. -/
def suggestionNote (suggestion : String) : String :=
  if (strip suggestion.toList).contains ' ' || suggestion.toList.contains ':' then suggestion
  else s!"did you mean {suggestion}?"

/-- The note behind a finding: the suggestion in parentheses, or nothing without one. -/
def noteAfter (suggestion : Option String) : String :=
  match suggestion with
  | none => ""
  | some s => if s = "" then "" else s!" ({suggestionNote s})"

end PlanAudit
