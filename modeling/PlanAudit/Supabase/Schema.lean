import PlanAudit.Catalog
import PlanAudit.Pattern.Build
import PlanAudit.Text.Brackets

/-!
# Supabase schemas

The client generator writes the tables, functions and enumerations of a database as one type.  Its
text is read section by section.

## Main definitions

* `Schema`: the tables, functions and enumerations
* `isDatabaseTypes`: whether a text holds such a type
* `sectionBody?`: the body of a named block
* `fieldList`: the fields of a block
* `blocks`: the named blocks at the top of a section
* `Schema.parse`: the schema of a text
-/

namespace PlanAudit.Supabase

open PlanAudit.Text Pattern

/-- A table with the type of each column. -/
structure Table where
  /-- The name of the table. -/
  name : String
  /-- The type of each column. -/
  columns : Catalog String

/-- A function of the database. -/
structure Function where
  /-- The name of the function. -/
  name : String
  /-- The type of each argument. -/
  args : Catalog String
  /-- The type of the result. -/
  returns : String

/-- The tables, functions and enumerations of a database. -/
structure Schema where
  /-- The file that declares the type. -/
  typesFile : Option String
  /-- The tables by name. -/
  tables : Catalog Table
  /-- The functions by name. -/
  functions : Catalog Function
  /-- The values of each enumeration. -/
  enums : Catalog (List String)

/-! ## Sections -/

/-- The head of the type. -/
def databaseType : Pattern :=
  lit "export" ++ blanks1 ++ lit "type" ++ blanks1 ++ lit "Database" ++ blanks ++ char '='

/-- The head of the block of tables. -/
def tablesKey : Pattern := lit "Tables:" ++ blanks ++ char '{'

/-- Whether the text holds the type of a database. -/
def isDatabaseTypes (content : List Char) : Bool :=
  databaseType.occursIn content && tablesKey.occursIn content

/-- The head of the block with the name. -/
def sectionHead (title : String) : Pattern :=
  wordEdge ++ lit title ++ char ':' ++ blanks ++ char '{'

/-- The body of the first block with the name; a missing closing brace stands at the end. -/
def sectionBody? (content : List Char) (title : String) : Option (List Char) :=
  ((sectionHead title).search content).map fun m => (balancedSlice content m.stop .curly).body

/-- A name and what follows its colon on the line. -/
def fieldEntry : Pattern :=
  capture 1 name ++ blanks ++ char ':' ++ blanks ++
    capture 2 (plus (one fun c => c != ';' && c != '\n'))

/-- The fields of a block with their types. -/
def fieldList (body : List Char) : Catalog String :=
  Catalog.ofList
    ((fieldEntry.findAll body).map fun m => (m.name 1, String.ofList (strip (m.group 2))))

/-- The head of a named block. -/
def blockHead : Pattern := capture 1 name ++ char ':' ++ blanks ++ char '{'

/-- A named block. -/
structure Block where
  /-- The name before the colon. -/
  name : String
  /-- The text between the braces. -/
  body : List Char
  deriving DecidableEq, Repr

/-- The named blocks from `position` on, of which at most `fuel` heads are tried.  A head with a
name in `skip` and one without a closing brace are passed over. -/
def blocksFrom (content : List Char) (skip : List String) : Nat → Nat → List Block
  | 0, _ => []
  | fuel + 1, position =>
    match blockHead.searchFrom content position with
    | none => []
    | some m =>
      if skip.contains (m.name 1) then blocksFrom content skip fuel m.stop
      else
        match balancedSlice? content m.stop .curly with
        | none => blocksFrom content skip fuel m.stop
        | some s => ⟨m.name 1, s.body⟩ :: blocksFrom content skip fuel s.stop

/-- The named blocks at the top of a section. -/
def blocks (content : List Char) (skip : List String) : List Block :=
  blocksFrom content skip (content.length + 1) 0

/-! ## Reading a schema -/

/-- Names of blocks inside a table. -/
def tableParts : List String := ["Row", "Insert", "Update", "Relationships"]

/-- Names of blocks inside a function. -/
def functionParts : List String := ["Args", "Returns"]

/-- The type of the result of a function. -/
def returnsEntry : Pattern :=
  lit "Returns:" ++ blanks ++ capture 1 (plus (noneOf "\n;\x7d\x7b"))

/-- The values of an enumeration. -/
def enumEntry : Pattern :=
  capture 1 name ++ char ':' ++ blanks ++ capture 2 (plus (one (· != '\n')))

/-- The table declared by a block, if the block lists its columns. -/
def tableOf? (b : Block) : Option Table :=
  (sectionBody? b.body "Row").map fun row => ⟨b.name, fieldList row⟩

/-- The function declared by a block. -/
def functionOf (b : Block) : Function :=
  { name := b.name
    args := match sectionBody? b.body "Args" with
      | some args => fieldList args
      | none => .empty
    returns := match returnsEntry.search b.body with
      | some m => String.ofList (strip (m.group 1))
      | none => "unknown" }

/-- The enumeration declared by an entry, if it lists values. -/
def enumOf? (m : Match) : Option (String × List String) :=
  let values := ((quoted 1).findAll (m.group 2)).map (Match.name · 1)
  if values.isEmpty then none else some (m.name 1, values)

/-- The schema declared by a text. -/
def Schema.parse (content : List Char) : Schema :=
  let body (title : String) := (sectionBody? content title).getD []
  { typesFile := none
    tables := Catalog.ofList
      (((blocks (body "Tables") tableParts).filterMap tableOf?).map fun t => (t.name, t))
    functions := Catalog.ofList
      (((blocks (body "Functions") functionParts).map functionOf).map fun f => (f.name, f))
    enums := Catalog.ofList ((enumEntry.findAll (body "Enums")).filterMap enumOf?) }

end PlanAudit.Supabase
