import PlanAudit.Proofs.Text.Brackets
import PlanAudit.Proofs.Text.Words
import PlanAudit.Supabase.Schema

/-!
# Types as the client generator writes them

The generator writes the type of a database in one layout: sections of tables, functions and
enumerations, one entry in each line or block, and braces around blocks at fixed indentations.
Columns and arguments may stand on one line as well.

Names do not clash with the words of the layout, and types hold no braces.  The values of an
enumeration are free but for quotation marks; a brace in one of them is a brace all the same for a
reader that counts braces.

## Main definitions

* `Name`, `TypeText`, `Literal`: the words of the layout
* `line`, `block`, `partBlock`: the layout of lines and blocks
* `TableText`, `FunctionText`, `EnumText`, `SchemaText`: a schema as it is written
* `SchemaText.text`: its text
-/

namespace PlanAudit.Supabase

open Text

/-! ## Words -/

/-- The names that the layout uses itself. -/
def layoutNames : List String :=
  ["Tables", "Functions", "Enums", "Row", "Insert", "Update", "Relationships", "Args", "Returns"]

/-- The name of a table, of a column, of a function, of an argument or of an enumeration. -/
structure Name extends Word where
  /-- The layout does not use it itself. -/
  free : String.ofList chars ∉ layoutNames

/-- The name that a string is. -/
def Name.ofString (s : String) (h : (s.toList ≠ [] ∧ ∀ c ∈ s.toList, isWord c = true) ∧
    String.ofList s.toList ∉ layoutNames) : Name :=
  ⟨.ofString s h.1, h.2⟩

/-- A type, on one line and without braces and semicolons. -/
structure TypeText where
  chars : List Char
  ne_nil : chars ≠ []
  /-- No white space stands at its ends. -/
  trimmed : strip chars = chars
  plain : ∀ c ∈ chars, c ≠ '\n' ∧ c ≠ ';' ∧ c ≠ '{' ∧ c ≠ '}'

def TypeText.string (t : TypeText) : String := String.ofList t.chars

/-- A value of an enumeration. -/
structure Literal where
  chars : List Char
  ne_nil : chars ≠ []
  unquoted : ∀ c ∈ chars, c ≠ '"' ∧ c ≠ '\'' ∧ c ≠ '\n'

def Literal.string (l : Literal) : String := String.ofList l.chars

/-- The value between quotation marks. -/
def Literal.quoted (l : Literal) : List Char := '"' :: (l.chars ++ ['"'])

/-! ## Lines and blocks -/

/-- A line behind another one. -/
def line (indent : Nat) (text : List Char) : List Char :=
  '\n' :: (List.replicate indent ' ' ++ text)

/-- What opens a block. -/
def heading (title : List Char) : List Char := title ++ [':', ' ', '{']

/-- A block with a heading and the brace that closes it on lines of their own. -/
def block (indent : Nat) (title body : List Char) : List Char :=
  line indent (heading title) ++ (body ++ line indent ['}'])

/-- Parts on lines of their own. -/
def partLines (parts : List (List Char)) : List Char := parts.flatMap (line 10)

/-- Parts on one line with semicolons between them. -/
def partRow : List (List Char) → List Char
  | [] => []
  | p :: ps => ' ' :: (p ++ ps.flatMap fun q => ';' :: ' ' :: q)

/-- A block inside an entry, on one line or on several. -/
def partBlock (title : List Char) (inline : Bool) (parts : List (List Char)) : List Char :=
  if inline then line 8 (heading title ++ (partRow parts ++ [' ', '}']))
  else block 8 title (partLines parts)

/-! ## Entries -/

/-- A field: a column with its type, or an argument with its type. -/
structure Field where
  name : Name
  type : TypeText

def Field.chars (f : Field) : List Char := f.name.chars ++ (':' :: ' ' :: f.type.chars)

def Field.entry (f : Field) : String × String := (f.name.string, f.type.string)

/-- The columns of a table, or the arguments of a function. -/
structure Fields where
  list : List Field
  /-- No two of them share a name. -/
  distinct : (list.map (·.name.string)).Nodup
  /-- Whether they stand on one line. -/
  inline : Bool

def Fields.block (title : String) (fs : Fields) : List Char :=
  partBlock title.toList fs.inline (fs.list.map Field.chars)

def Fields.catalog (fs : Fields) : Catalog String where
  entries := fs.list.map Field.entry
  nodup := by
    rw [List.map_map]
    exact fs.distinct

/-- A field of what is written to a row. -/
structure Input where
  field : Field
  /-- Whether it may be left out. -/
  optional : Bool

def Input.chars (i : Input) : List Char :=
  i.field.name.chars ++ ((if i.optional then ['?'] else []) ++ ':' :: ' ' :: i.field.type.chars)

/-- What is written to a row. -/
structure Inputs where
  list : List Input
  /-- Whether the fields stand on one line. -/
  inline : Bool

def Inputs.block (title : String) (is : Inputs) : List Char :=
  partBlock title.toList is.inline (is.list.map Input.chars)

structure TableText where
  name : Name
  columns : Fields
  /-- What a new row is made of. -/
  insert : Inputs
  /-- What a changed row is made of. -/
  update : Inputs

def TableText.body (t : TableText) : List Char :=
  t.columns.block "Row" ++ (t.insert.block "Insert" ++ (t.update.block "Update" ++
    line 8 "Relationships: []".toList))

def TableText.chars (t : TableText) : List Char := block 6 t.name.chars t.body

def TableText.table (t : TableText) : Table := ⟨t.name.string, t.columns.catalog⟩

structure FunctionText where
  name : Name
  args : Fields
  returns : TypeText

def FunctionText.body (f : FunctionText) : List Char :=
  f.args.block "Args" ++ line 8 ("Returns: ".toList ++ f.returns.chars)

def FunctionText.chars (f : FunctionText) : List Char := block 6 f.name.chars f.body

/-- An enumeration with its first value and the others. -/
structure EnumText where
  name : Name
  first : Literal
  others : List Literal

def EnumText.values (e : EnumText) : List Literal := e.first :: e.others

def EnumText.union (e : EnumText) : List Char :=
  e.first.quoted ++ e.others.flatMap fun l => ' ' :: '|' :: ' ' :: l.quoted

def EnumText.chars (e : EnumText) : List Char :=
  line 6 (e.name.chars ++ (':' :: ' ' :: e.union))

def EnumText.entry (e : EnumText) : String × List String :=
  (e.name.string, e.values.map Literal.string)

/-! ## Schemas -/

/-- The type of a database. -/
structure SchemaText where
  /-- What stands in front. -/
  preamble : List Char
  preamble_plain : '{' ∉ preamble
  tables : List TableText
  /-- No two tables share a name. -/
  distinct : (tables.map (·.name.string)).Nodup
  functions : List FunctionText
  enums : List EnumText

namespace SchemaText

variable (s : SchemaText)

/-- What stands in front of the sections. -/
def front : List Char :=
  s.preamble ++ "export type Database = ".toList ++ ['{'] ++ line 2 (heading "public".toList)

/-- The sections of tables and of functions. -/
def tablesChars : List Char := s.tables.flatMap TableText.chars

def functionsChars : List Char := s.functions.flatMap FunctionText.chars

/-- The lines of the enumerations. -/
def enumsChars : List Char := s.enums.flatMap EnumText.chars

/-- What stands behind the lines of the enumerations. -/
def back : List Char := line 4 ['}'] ++ (line 2 ['}'] ++ (line 0 ['}'] ++ ['\n']))

def text : List Char :=
  s.front ++ (block 4 "Tables".toList s.tablesChars ++
    (block 4 "Functions".toList s.functionsChars ++
      (line 4 (heading "Enums".toList) ++ (s.enumsChars ++ back))))

/-- The characters of all values of all enumerations. -/
def literals : List Char := s.enums.flatMap fun e => e.values.flatMap Literal.chars

/-- In the values no brace is closed that was not opened. -/
def ClosesNone : Prop := (depthAfter .curly 0 s.literals).isSome

end SchemaText

end PlanAudit.Supabase
