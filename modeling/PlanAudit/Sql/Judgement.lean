import PlanAudit.Sql.Mentions
import PlanAudit.Sql.Schema
import PlanAudit.Suggestion

/-!
# Judging tables and columns

## Main definitions

* `judge?`: the judgement of one mention; a property of something that is no table is dropped
* `analyze`: the judgements of the tables and columns of a plan
-/

namespace PlanAudit.Sql

/-- What is suggested for a table: an overlapping table, or else an overlapping variable. -/
def suggestTable (name : String) (schema : Schema) : Option String :=
  match suggest name schema.tables.names with
  | some "" | none => suggest name schema.tableOf.names
  | some found => some found

/-- The judgement of a mention. -/
def judge? (schema : Schema) (m : Mention) : Option Reference :=
  match schema.resolve? m.ownerName with
  | none =>
    if m.kind = .column then none
    else some (m.reject .table (suggestTable m.ownerName schema))
  | some table =>
    match m.name with
    | none => some m.accept
    | some column =>
      if table.columns.contains column then some m.accept
      else some (m.reject .column (suggest column table.columns.names))

/-- The judgements of the tables and columns of a plan. -/
def analyze (plan : List Char) (schema : Schema) : List Reference :=
  Reference.dedupe ((mentions plan).filterMap (judge? schema))

end PlanAudit.Sql
