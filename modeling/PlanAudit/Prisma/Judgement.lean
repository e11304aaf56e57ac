import PlanAudit.Prisma.Mentions
import PlanAudit.Prisma.Schema
import PlanAudit.Suggestion

/-!
# Judging client calls

## Main definitions

* `contextModel?`: the model in whose context fields and relations are judged
* `judge?`: the judgement of one mention, if it can be attributed to a model
* `analyze`: the judgements of the client calls of a plan
-/

namespace PlanAudit.Prisma

open PlanAudit.Text

/-- The model behind an accessor, or behind the accessor suggested in its place: the fields of a
misspelled model are judged against the one most likely meant. -/
def contextModel? (schema : Schema) (accessor : String) : Option Model :=
  (schema.modelFor? accessor).or
    ((suggest accessor schema.accessorToModel.names).bind schema.modelFor?)

/-- What is suggested for a relation: an overlapping one, or else all of them. -/
def relationSuggestion (name : String) (model : Model) : Option String :=
  let relations := model.relations.map (·.name)
  match suggest name relations with
  | some found => some found
  | none => if relations.isEmpty then none else some ("valid relations: " ++ commaList relations)

/-- The variable at the start of a client call. -/
def clientOf (raw : String) : String := String.ofList (raw.toList.takeWhile (· != '.'))

/-- The judgement of a model. -/
def judgeModel (schema : Schema) (m : Mention) : Reference :=
  let accessors := schema.accessorToModel
  if accessors.contains m.ownerName then m.accept
  else
    m.reject .model
      ((suggest m.ownerName accessors.names).map fun found => clientOf m.raw ++ "." ++ found)

/-- The judgement of a client method. -/
def judgeMethod (m : Mention) : Reference :=
  if m.name.any clientMethods.contains then m.accept else m.reject .invalidMethod

/-- The judgement of a field of a model. -/
def judgeField (model : Model) (m : Mention) : Reference :=
  if model.fields.contains m.memberName then m.accept
  else m.reject .field (suggest m.memberName model.fields.names)

/-- The judgement of a relation of a model. -/
def judgeRelation (model : Model) (m : Mention) : Reference :=
  match model.fields.find? m.memberName with
  | none => m.reject .wrongRelation (relationSuggestion m.memberName model)
  | some field =>
    if field.isRelation then m.accept
    else m.reject .wrongRelation (some s!"{m.memberName} is not a relation field")

/-- The judgement of a mention; none if its model cannot be told. -/
def judge? (schema : Schema) (m : Mention) : Option Reference :=
  match m.kind with
  | .model => some (judgeModel schema m)
  | .method => some (judgeMethod m)
  | .field => (contextModel? schema m.ownerName).map (judgeField · m)
  | _ => (contextModel? schema m.ownerName).map (judgeRelation · m)

/-- The judgements of the client calls of a plan. -/
def analyze (plan : List Char) (schema : Schema) : List Reference :=
  Reference.dedupe ((mentions plan).filterMap (judge? schema))

end PlanAudit.Prisma
