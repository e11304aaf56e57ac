import PlanAudit.Plan.Code
import PlanAudit.Reference

/-!
# Tables and columns in a plan

A table is named by a call of a query builder or after a keyword of SQL; a column is a property of
something that may turn out to be a table.

## Main definitions

* `binders`: the variables that hold a query builder
* `mentions`: the tables and possible columns that a plan mentions
-/

namespace PlanAudit.Sql

open PlanAudit.Text Pattern

/-! ## Words that name neither tables nor columns -/

/-- Words of SQL, in lower case. -/
def keywords : List String :=
  ["from", "where", "select", "insert", "into", "update", "delete", "set", "values", "join",
    "inner", "outer", "left", "right", "cross", "on", "and", "or", "not", "in", "is", "null", "as",
    "order", "by", "group", "having", "limit", "offset", "union", "all", "distinct", "create",
    "table", "alter", "drop", "index", "primary", "key", "foreign", "references", "constraint",
    "unique", "check", "default", "cascade", "restrict", "exists", "between", "like", "case",
    "when", "then", "else", "end", "asc", "desc", "true", "false", "count", "sum", "avg", "min",
    "max", "if", "returning", "with", "recursive"]

/-- Properties that belong to the language or the query builder. -/
def commonProperties : List String :=
  ["length", "prototype", "constructor", "name", "toString", "valueOf", "call", "apply", "bind",
    "map", "filter", "reduce", "forEach", "push", "pop", "shift", "unshift", "slice", "splice",
    "concat", "join", "indexOf", "includes", "find", "findFirst", "findMany", "findUnique",
    "create", "createMany", "values", "keys", "entries", "then", "catch", "finally", "log", "error",
    "warn", "info", "env", "resolve", "reject", "parse", "stringify", "from", "select", "insert",
    "update", "delete", "query", "table"]

/-- Objects that are never tables. -/
def globals : List String :=
  ["console", "Math", "JSON", "Date", "Array", "Object", "String", "Number", "Boolean", "Promise",
    "Map", "Set", "RegExp", "Error", "process", "require", "module", "exports", "global", "window",
    "document", "navigator", "fetch", "Response", "Request", "URL", "Buffer", "fs", "path", "os",
    "crypto", "http", "https", "import", "export", "const", "let", "var", "function", "class",
    "db", "prisma", "ctx", "req", "res", "app", "router", "next"]

/-- Whether the name is a word of SQL in any case. -/
def isKeyword (name : String) : Bool := keywords.contains (lowerCase name)

/-! ## Query builders -/

/-- The variable that holds a query builder by convention. -/
def defaultBinder : String := "db"

/-- The arguments of a call of `select` and the call of `from` after it. -/
def selectFrom : Pattern :=
  lit "select(" ++ star (one (· != ')')) ++ char ')' ++ blanks ++ lit ".from"

/-- The calls that show that a variable holds a query builder. -/
def binderPatterns : List Pattern :=
  [wordEdge ++ capture 1 name ++ char '.' ++ selectFrom ++ blanks ++ char '(',
    wordEdge ++ capture 1 name ++ lit ".query." ++ name ++ char '.' ++
      oneOfTexts ["findMany", "findFirst"] ++ wordEdge]

/-- The variables that hold a query builder, the conventional one first. -/
def binders (plan : List Char) : List String :=
  firstPerKey id
    (defaultBinder :: binderPatterns.flatMap fun p => (p.findAll plan).map (Match.name · 1))

/-- A call of a query builder that takes a table. -/
def builderCall (names : List String) : Pattern :=
  wordEdge ++ oneOfTexts names ++ char '.' ++
    (selectFrom ||| lit "insert" ||| lit "update" ||| lit "delete") ++ blanks ++ char '(' ++
    blanks ++ capture 1 name

/-- A relational query of a query builder. -/
def relationalQuery (names : List String) : Pattern :=
  wordEdge ++ oneOfTexts names ++ lit ".query." ++ capture 1 name ++ char '.' ++ name

/-! ## Mentions -/

/-- The mention of a table. -/
def tableMention (m : Match) (offset : Option Nat) : Mention :=
  { raw := m.string, kind := .table, offset := offset, owner := some (m.name 1) }

/-- The tables given to query builders. -/
def builderMentions (plan : List Char) : List Mention :=
  let names := binders plan
  [builderCall names, relationalQuery names].flatMap fun p =>
    ((p.findAll plan).filter fun m => !isKeyword (m.name 1)).map fun m =>
      tableMention m (some m.start)

/-- A property access. -/
def propertyAccess : Pattern :=
  wordEdge ++ capture 1 name ++ char '.' ++ capture 2 name ++ wordEdge

/-- Whether a property access may be a column of a table. -/
def mayBeColumn (object property : String) : Bool :=
  !(globals.contains object || isKeyword object) &&
    !(isKeyword property || commonProperties.contains property)

/-- The property accesses that may be columns of tables. -/
def columnMentions (plan : List Char) : List Mention :=
  ((propertyAccess.findAll plan).filter fun m => mayBeColumn (m.name 1) (m.name 2)).map fun m =>
    { raw := m.string, kind := .column, offset := some m.start, owner := some (m.name 1),
      name := some (m.name 2) }

/-- A character that shows that the word before it is not a table. -/
def continuesWord (c : Char) : Bool := isWord c || c == '/' || c == '.' || c == '@' || c == '-'

/-- A name after a keyword of SQL. -/
def tableAfterKeyword : Pattern :=
  wordEdge ++ oneOfTextsAnyCase ["FROM", "INTO", "UPDATE", "JOIN"] ++ blanks1 ++ opt anyQuote ++
    capture 1 name ++ opt anyQuote ++ notBefore continuesWord

/-- A line that imports or exports something. -/
def moduleLine : Pattern := blanks ++ oneOfTexts ["import", "export"] ++ wordEdge

/-- The names after keywords of SQL in the code of the plan, lines of imports and exports left
out. -/
def keywordMentions (plan : List Char) : List Mention :=
  let code := Plan.codeRegions plan
  ((tableAfterKeyword.findAll code).filter fun m =>
    !isKeyword (m.name 1) && !moduleLine.matchesStart (Plan.lineAt code m.start)).map fun m =>
      tableMention m none

/-- The tables and possible columns that the plan mentions, each once. -/
def mentions (plan : List Char) : List Mention :=
  firstPerKey (fun m => (m.ownerName, m.name))
    (builderMentions plan ++ columnMentions plan ++ keywordMentions plan)

end PlanAudit.Sql
