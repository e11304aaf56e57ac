import PlanAudit.Plan.Code
import PlanAudit.Reference

/-!
# Supabase queries in a plan

A column means something only relative to the table of the query in which it stands.  It belongs
to the last table named before it in the same piece of text, and is dropped if there is none.

## Main definitions

* `nearestFrom`: the table of the query around a position
* `selectMentions`: the columns in the text of a selection
* `mentions`: the tables, columns and functions that a plan mentions
-/

namespace PlanAudit.Supabase

open PlanAudit.Text Pattern

/-- The methods that filter by a column. -/
def filterMethods : List String :=
  ["eq", "neq", "gt", "gte", "lt", "lte", "order", "is", "in", "like", "ilike", "match", "not",
    "filter"]

/-- A name between quotation marks. -/
def quotedName (index : Nat) : Pattern := quote ++ capture index name ++ quote

/-- The call that names the table of a query. -/
def fromCall : Pattern := lit ".from(" ++ blanks ++ quotedName 1 ++ blanks ++ char ')'

/-- The call that selects columns. -/
def selectCall : Pattern := lit ".select(" ++ blanks ++ quoted 1 ++ blanks ++ char ')'

/-- A call that filters by a column. -/
def filterCall : Pattern :=
  char '.' ++ capture 1 (oneOfTexts filterMethods) ++ char '(' ++ blanks ++ quotedName 2

/-- A call of a function in the database. -/
def functionCall : Pattern := lit ".rpc(" ++ blanks ++ quotedName 1 ++ blanks ++ oneOf ",)"

/-- How far back the table of a query is looked for. -/
def lookback : Nat := 500

/-- The table of the last query that starts before the position in the same piece of text. -/
def nearestFrom (plan : List Char) (position : Nat) : Option String :=
  ((fromCall.findAll (Plan.lookbackWindow plan position lookback)).getLast?).map (Match.name · 1)

/-! ## Selections -/

/-- An embedded relation with its columns, an alias and a hint allowed. -/
def embeddedRelation : Pattern :=
  opt (name ++ char ':') ++ capture 1 name ++ opt (char '!' ++ name) ++ char '(' ++
    capture 2 (plus (one (· != '\n'))) ++ char ')' ++ textEnd

/-- A column under an alias. -/
def aliasedColumn : Pattern := name ++ char ':' ++ capture 1 name ++ textEnd

/-- The text after the last colon. -/
def afterColon (text : List Char) : List Char := Plan.afterLast [':'] text

/-- The mention of a relation and, where given, of a column of it. -/
def embedMention (relation : String) (column : Option String) : Mention :=
  { raw := match column with
      | some c => s!".select('...{relation}({c})...')"
      | none => s!".select('...{relation}...')"
    kind := .embed, owner := some relation, name := column }

/-- The mention of a column of the table. -/
def columnMention (table column : String) : Mention :=
  { raw := s!".select('...{column}...')", kind := .column, owner := some table,
    name := some column }

/-- The mentions in one part of a selection from the table. -/
def partMentions (table : String) (part : List Char) : List Mention :=
  if part = [] ∨ part = ['*'] then []
  else
    match embeddedRelation.matchStart part with
    | some m =>
      let relation := m.name 1
      let columns := ((commaParts (m.group 2)).map afterColon).filter soleName.matchesStart
      embedMention relation none ::
        columns.map fun c => embedMention relation (some (String.ofList c))
    | none =>
      let column :=
        match aliasedColumn.matchStart part with
        | some m => m.group 1
        | none => part
      if soleName.matchesStart column then [columnMention table (String.ofList column)] else []

/-- The columns in the text of a selection from the table. -/
def selectMentions (selection : List Char) (table : String) : List Mention :=
  (splitTopLevel selection [',']).flatMap fun part => partMentions table (strip part)

/-! ## Mentions -/

/-- The tables of queries. -/
def tableMentions (plan : List Char) : List Mention :=
  (fromCall.findAll plan).map fun m =>
    { raw := m.string, kind := .table, offset := some m.start, owner := some (m.name 1) }

/-- The columns selected by queries. -/
def selectedMentions (plan : List Char) : List Mention :=
  (selectCall.findAll plan).flatMap fun m =>
    match nearestFrom plan m.start with
    | some table =>
      (selectMentions (m.group 1) table).map fun r => { r with offset := some m.start }
    | none => []

/-- The columns by which queries filter. -/
def filterMentions (plan : List Char) : List Mention :=
  (filterCall.findAll plan).filterMap fun m =>
    (nearestFrom plan m.start).map fun table =>
      { raw := m.string, kind := .column, offset := some m.start, owner := some table,
        name := some (m.name 2) }

/-- The functions that are called. -/
def functionMentions (plan : List Char) : List Mention :=
  (functionCall.findAll plan).map fun m =>
    { raw := m.string, kind := .function, offset := some m.start, name := some (m.name 1) }

/-- What makes two mentions the same: whether a function is meant, the table and the name. -/
def mentionKey (m : Mention) : Bool × String × String :=
  (m.kind == .function, m.ownerName, m.memberName)

/-- The tables, columns and functions that the plan mentions, each once. -/
def mentions (plan : List Char) : List Mention :=
  firstPerKey mentionKey
    (tableMentions plan ++ selectedMentions plan ++ filterMentions plan ++ functionMentions plan)

end PlanAudit.Supabase
