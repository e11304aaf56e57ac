import PlanAudit.Suggestion
import PlanAudit.Types.Declaration
import PlanAudit.Types.Mentions

/-!
# Judging types

## Main definitions

* `judge`: the judgement of a type or a member
* `analyze`: the judgements of the types of a plan
-/

namespace PlanAudit.Types

open PlanAudit.Text

/-- The longest list of members that is spelled out when no member overlaps. -/
def maxListedMembers : Nat := 8

/-- What is suggested for a member: an overlapping one, or else all of them if they are few. -/
def memberSuggestion (name : String) (members : List String) : Option String :=
  match suggest name members with
  | some found => some found
  | none =>
    if members.length ≤ maxListedMembers then some ("valid members: " ++ commaList members)
    else none

/-- The judgement of a mention.  A declaration without members, such as an alias, admits any. -/
def judge (index : Index) (m : Mention) : Reference :=
  match index.find? m.ownerName with
  | none => m.reject .type (suggest m.ownerName index.names)
  | some d =>
    match m.name with
    | none => m.accept
    | some member =>
      if d.members.isEmpty || d.members.contains member then m.accept
      else m.reject .member (memberSuggestion member d.members.names)

/-- The judgements of the types of a plan. -/
def analyze (plan : List Char) (index : Index) : List Reference :=
  Reference.dedupe ((mentions plan).map (judge index))

end PlanAudit.Types
