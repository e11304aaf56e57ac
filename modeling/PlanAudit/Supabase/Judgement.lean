import PlanAudit.Supabase.Mentions
import PlanAudit.Supabase.Schema
import PlanAudit.Suggestion

/-!
# Judging Supabase queries

## Main definitions

* `judge?`: the judgement of one mention; a column of an unknown table is dropped, since the table
  is reported on its own
* `analyze`: the judgements of the queries of a plan
-/

namespace PlanAudit.Supabase

/-- The judgement of a function. -/
def judgeFunction (schema : Schema) (m : Mention) : Reference :=
  if schema.functions.contains m.memberName then m.accept
  else m.reject .function (suggest m.memberName schema.functions.names)

/-- The judgement of what is mentioned of a known table. -/
def judgeColumn (table : Table) (m : Mention) : Reference :=
  match m.name with
  | none => m.accept
  | some column =>
    if table.columns.contains column then m.accept
    else m.reject .column (suggest column table.columns.names)

/-- The judgement of a mention. -/
def judge? (schema : Schema) (m : Mention) : Option Reference :=
  if m.kind = .function then some (judgeFunction schema m)
  else
    match schema.tables.find? m.ownerName with
    | some table => some (judgeColumn table m)
    | none =>
      if m.kind = .table then some (m.reject .table (suggest m.ownerName schema.tables.names))
      else none

/-- The judgements of the queries of a plan. -/
def analyze (plan : List Char) (schema : Schema) : List Reference :=
  Reference.dedupe ((mentions plan).filterMap (judge? schema))

end PlanAudit.Supabase
