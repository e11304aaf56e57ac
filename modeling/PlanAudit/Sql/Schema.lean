import PlanAudit.Catalog
import PlanAudit.Pattern.Build
import PlanAudit.Text.ObjectKey

/-!
# Tables of a database

Tables are declared in two ways: by builder functions in source files, which also bind a variable,
and by statements in migrations.  A table declared by a builder takes precedence.

## Main definitions

* `Table`, `Schema`: tables and the variables bound to them
* `Schema.resolve?`: the table behind a name or a variable
* `builderTables`, `statementTables`: the tables declared in a text, in either way
* `Schema.addBuilt`, `Schema.addStated`: a schema with further tables
-/

namespace PlanAudit.Sql

open PlanAudit.Text Pattern

/-- How a table is declared. -/
inductive TableSource where
  /-- By a builder function. -/
  | builder
  /-- By a statement. -/
  | statement
  deriving DecidableEq, Repr

/-- The word for a way to declare a table. -/
def TableSource.label : TableSource → String
  | .builder => "drizzle"
  | .statement => "sql"

/-- A table with its columns. -/
structure Table where
  /-- The name of the table. -/
  name : String
  /-- The variable that is bound to it. -/
  variableName : Option String
  /-- The type of each column. -/
  columns : Catalog String
  /-- The file that declares it. -/
  filePath : String
  /-- How it is declared. -/
  source : TableSource

/-- The tables of a project and the variables bound to them. -/
structure Schema where
  /-- The tables by name. -/
  tables : Catalog Table
  /-- The name of the table bound to each variable. -/
  tableOf : Catalog String

/-- The schema without tables. -/
def Schema.empty : Schema := ⟨.empty, .empty⟩

/-- The table with the name, or else the table bound to the variable of that name. -/
def Schema.resolve? (s : Schema) (name : String) : Option Table :=
  match s.tables.find? name with
  | some table => some table
  | none => (s.tableOf.find? name).bind s.tables.find?

/-- The schema with a table declared by a builder, which replaces one of the same name. -/
def Schema.addBuilt (s : Schema) (t : Table) : Schema :=
  { tables := s.tables.insert t.name t
    tableOf := match t.variableName with
      | some v => s.tableOf.insert v t.name
      | none => s.tableOf }

/-- The schema with a table declared by a statement, unless one of the same name is known. -/
def Schema.addStated (s : Schema) (t : Table) : Schema :=
  { s with tables := s.tables.insertNew t.name t }

/-! ## Builders -/

/-- The builder functions. -/
def builderFunction : Pattern := oneOfTexts ["pgTable", "mysqlTable", "sqliteTable"]

/-- An exported table made by a builder function, up to the comma after its name. -/
def builderHead : Pattern :=
  lit "export" ++ blanks1 ++ lit "const" ++ blanks1 ++ capture 1 name ++ blanks ++ char '=' ++
    blanks ++ builderFunction ++ blanks ++ char '(' ++ blanks ++ quoted 2 ++ blanks ++ char ','

/-- The function at the start of the value of a column. -/
def columnType : Pattern := blanks ++ capture 1 name ++ blanks ++ char '('

/-- The position of the object that lists the columns, counted from the start of the text: the
first brace, or what follows the arrow of a callback that comes first. -/
def columnsStart? (text : List Char) : Option Nat :=
  let before := text.takeWhile fun c => c != '{' && c != '('
  match text.drop before.length with
  | '{' :: _ => some before.length
  | '(' :: rest =>
    match find? ['=', '>'] ('(' :: rest) with
    | none => none
    | some n =>
      let arrowEnd := before.length + n + 2
      let skipped := (text.drop arrowEnd).takeWhile fun c => isBlank c || c == '('
      let start := arrowEnd + skipped.length
      if (text.drop start).head? == some '{' then some start else none
  | _ => none

/-- The columns that the object after `start` lists, with the function that makes each. -/
def builderColumns (content : List Char) (start : Nat) : Catalog String :=
  match columnsStart? (content.drop start) with
  | none => .empty
  | some n =>
    Catalog.ofList
      ((objectKeys content (start + n + 1) 0).map fun k =>
        (k.key,
          match columnType.matchStart (slice content k.valueStart k.valueEnd) with
          | some m => m.name 1
          | none => "unknown"))

/-- The tables that builder functions declare in a file. -/
def builderTables (content : List Char) (file : String) : List Table :=
  (builderHead.findAll content).map fun m =>
    { name := m.name 2
      variableName := some (m.name 1)
      columns := builderColumns content m.stop
      filePath := file
      source := .builder }

/-! ## Statements -/

/-- The head of a statement that creates a table. -/
def statementHead : Pattern :=
  litAnyCase "CREATE" ++ blanks1 ++ litAnyCase "TABLE" ++ blanks1 ++
    opt (litAnyCase "IF" ++ blanks1 ++ litAnyCase "NOT" ++ blanks1 ++ litAnyCase "EXISTS" ++
      blanks1) ++
    opt anyQuote ++ capture 1 name ++ opt anyQuote ++ blanks ++ char '('

/-- Words that start a constraint and no column, in lower case. -/
def constraintKeywords : List String :=
  ["primary", "foreign", "unique", "check", "constraint", "index"]

/-- Any quotation mark or a grave accent. -/
def isAnyQuote (c : Char) : Bool := c == '"' || c == '\'' || c == '\x60'

/-- The text without its first `n` quotation marks. -/
def dropQuotes : Nat → List Char → List Char
  | 0, text => text
  | _, [] => []
  | n + 1, c :: rest => if isAnyQuote c then dropQuotes n rest else c :: dropQuotes (n + 1) rest

/-- The name and the type of a column. -/
def columnHead : Pattern := capture 1 name ++ blanks1 ++ capture 2 name

/-- The column that a part of a statement declares, if it declares one. -/
def columnOf? (part : List Char) : Option (String × String) :=
  match columnHead.matchStart (dropQuotes 2 (strip part)) with
  | none => none
  | some m =>
    if constraintKeywords.contains (lowerCase (m.name 1)) then none
    else some (m.name 1, m.name 2)

/-- The columns that the body of a statement declares. -/
def statementColumns (body : List Char) : Catalog String :=
  Catalog.ofList ((splitTopLevel body [',']).filterMap columnOf?)

/-- The tables that statements declare in a file. -/
def statementTables (content : List Char) (file : String) : List Table :=
  (statementHead.findAll content).map fun m =>
    { name := m.name 1
      variableName := none
      columns := statementColumns (balancedSlice content m.stop .round).body
      filePath := file
      source := .statement }

end PlanAudit.Sql
