import PlanAudit.Catalog
import PlanAudit.Pattern.Build

/-!
# Prisma schemas

A schema declares models with fields, and enumerations.  It is read line by line: a field is a name
followed by a type, and a model ends at the first closing brace at the start of a line.

## Main definitions

* `Field`, `Model`, `Schema`: what a schema declares
* `accessor`: the name of a model on the client
* `Schema.parse`: the schema of a text
* `Schema.modelFor?`: the model behind an accessor
-/

namespace PlanAudit.Prisma

open PlanAudit.Text Pattern

/-- A field of a model. -/
structure Field where
  /-- The name of the field. -/
  name : String
  /-- The name of its type. -/
  type : String
  /-- Whether it holds a list. -/
  isList : Bool
  /-- Whether it leads to a model. -/
  isRelation : Bool
  deriving DecidableEq, Repr

/-- A model with its fields. -/
structure Model where
  /-- The name of the model. -/
  name : String
  /-- Its name on the client. -/
  accessor : String
  /-- The fields by name. -/
  fields : Catalog Field

/-- The fields that lead to models. -/
def Model.relations (m : Model) : List Field := m.fields.values.filter (·.isRelation)

/-- The models and enumerations of a schema. -/
structure Schema where
  /-- The models by name. -/
  models : Catalog Model
  /-- The names of the enumerations. -/
  enums : List String
  /-- The name of the model behind each accessor. -/
  accessorToModel : Catalog String
  /-- The accessor of each model. -/
  modelToAccessor : Catalog String

/-- The model behind an accessor. -/
def Schema.modelFor? (s : Schema) (accessor : String) : Option Model :=
  (s.accessorToModel.find? accessor).bind s.models.find?

/-- The name of a model on the client: its first letter becomes lower case. -/
def accessor (model : String) : String :=
  String.ofList (lower (model.toList.take 1) ++ model.toList.drop 1)

/-! ## Reading a schema -/

/-- The head of an enumeration. -/
def enumHead : Pattern :=
  lineStart ++ lit "enum" ++ blanks1 ++ capture 1 name ++ blanks ++ char '{'

/-- A model from its head to a closing brace at the start of a line. -/
def modelBlock : Pattern :=
  lineStart ++ lit "model" ++ blanks1 ++ capture 1 name ++ blanks ++ char '{' ++
    capture 2 (starLazy anything) ++ lineStart ++ char '}'

/-- The name, the type and the list mark of a field. -/
def fieldLine : Pattern :=
  capture 1 name ++ blanks1 ++ capture 2 name ++ opt (capture 3 (lit "[]"))

/-- Words that start a block and no field. -/
def blockKeywords : List String := ["model", "enum", "generator", "datasource"]

/-- The text that marks a field as a relation. -/
def relationMark : List Char := "@relation".toList

/-- The field declared by a line without white space around it, if it declares one, where models of
the given names are known.  Attributes of the model and comments declare none. -/
def fieldOf? (models : List String) (line : List Char) : Option Field :=
  if beginsWith "@@".toList line || beginsWith "//".toList line then none
  else
    match fieldLine.matchStart line with
    | none => none
    | some m =>
      if blockKeywords.contains (m.name 1) then none
      else
        some
          { name := m.name 1
            type := m.name 2
            isList := (m.capture? 3).isSome
            isRelation := models.contains (m.name 2) || contains relationMark line }

/-- The model declared by a match of a block, where models of the given names are known. -/
def modelOf (models : List String) (m : Match) : Model :=
  { name := m.name 1
    accessor := accessor (m.name 1)
    fields := Catalog.ofList
      ((((m.group 2).splitOn '\n').filterMap fun line => fieldOf? models (strip line)).map
        fun f => (f.name, f)) }

/-- The schema with the model of a block entered; the models of the blocks before are known. -/
def Schema.enter (s : Schema) (m : Match) : Schema :=
  let model := modelOf s.models.names m
  { s with
    models := s.models.insert model.name model
    accessorToModel := s.accessorToModel.insert model.accessor model.name
    modelToAccessor := s.modelToAccessor.insert model.name model.accessor }

/-- The field as a relation if its type is a model of one of the given names. -/
def Field.mark (models : List String) (f : Field) : Field :=
  if !f.isRelation && models.contains f.type then { f with isRelation := true } else f

/-- The model with its fields marked. -/
def Model.mark (models : List String) (m : Model) : Model :=
  { m with fields := m.fields.map (Field.mark models) }

/-- The schema with the fields marked whose type is a model further down. -/
def Schema.marked (s : Schema) : Schema :=
  { s with models := s.models.map (Model.mark s.models.names) }

/-- The schema without models. -/
def Schema.ofEnums (enums : List String) : Schema :=
  { models := .empty
    enums := enums
    accessorToModel := .empty
    modelToAccessor := .empty }

/-- The schema declared by a text.  Its blocks are read one after the other, and a second pass finds
the relations to models that are declared further down. -/
def Schema.parse (content : List Char) : Schema :=
  ((modelBlock.findAll content).foldl Schema.enter
    (.ofEnums ((enumHead.findAll content).map (Match.name · 1)))).marked

end PlanAudit.Prisma
