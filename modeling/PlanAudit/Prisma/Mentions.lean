import PlanAudit.Plan.Code
import PlanAudit.Reference
import PlanAudit.Text.ObjectKey

/-!
# Client calls in a plan

The variable that holds a database client need not be called `prisma`.  A first pass collects the
variables on which client methods are called; the second pass reads the calls on these variables
and the query objects inside them.

## Main definitions

* `clientNames`: the variables that hold a client
* `nearestAccessor`: the call in whose argument a query block stands
* `mentions`: the models, methods, fields and relations that a plan mentions
-/

namespace PlanAudit.Prisma

open PlanAudit.Text Pattern

/-- The methods of a model on a client. -/
def clientMethods : List String :=
  ["findMany", "findUnique", "findFirst", "findUniqueOrThrow", "findFirstOrThrow", "create",
    "createMany", "createManyAndReturn", "update", "updateMany", "upsert", "delete", "deleteMany",
    "count", "aggregate", "groupBy"]

/-- Operators and aggregates that stand where a field could. -/
def operatorKeys : List String :=
  ["true", "false", "null", "undefined", "desc", "asc", "not", "in", "gte", "lte", "gt", "lt",
    "contains", "startsWith", "endsWith", "equals", "mode", "some", "every", "none", "_count",
    "_sum", "_avg", "_min", "_max"]

/-- The variable that holds a client by convention. -/
def defaultClient : String := "prisma"

/-! ## Clients and calls -/

/-- A call of a client method. -/
def clientCall : Pattern :=
  capture 1 name ++ char '.' ++ name ++ char '.' ++ oneOfTexts clientMethods ++ wordEdge

/-- The variables on which client methods are called, and the conventional one. -/
def clientNames (code : List Char) : List String :=
  firstPerKey id ((clientCall.findAll code).map (Match.name · 1) ++ [defaultClient])

/-- A method of a model on one of the clients. -/
def modelCall (clients : List String) : Pattern :=
  wordEdge ++ capture 1 (oneOfTexts clients) ++ char '.' ++ capture 2 name ++ char '.' ++
    capture 3 name

/-- The start of a call on one of the clients. -/
def callStart (clients : List String) : Pattern :=
  wordEdge ++ oneOfTexts clients ++ char '.' ++ capture 1 name ++ char '.'

/-- The block of a query in which fields are named. -/
def queryBlock : Pattern :=
  oneOfTexts ["where", "orderBy", "select", "by", "data"] ++ blanks ++ char ':' ++ blanks ++
    char '{'

/-- The block of a query in which relations are named. -/
def includeBlock : Pattern := lit "include" ++ blanks ++ char ':' ++ blanks ++ char '{'

/-- How far back the call around a block is looked for. -/
def lookback : Nat := 500

/-- The accessor of the last call that starts before the position, unless the position is deeper
than the argument of that call. -/
def nearestAccessor (clients : List String) (code : List Char) (position : Nat) : Option String :=
  let preceding := slice code (position - lookback) position
  match ((callStart clients).findAll preceding).getLast? with
  | none => none
  | some m => if braceBalance (preceding.drop m.stop) > 1 then none else some (m.name 1)

/-! ## Mentions -/

/-- The model and the method of a call. -/
def callMentions (m : Match) : List Mention :=
  let accessor := m.name 2
  let method := m.name 3
  [{ raw := m.name 1 ++ "." ++ accessor, kind := .model, offset := some m.start,
     owner := some accessor },
    { raw := "." ++ method, kind := .method, offset := some (m.groupStart 3),
      owner := some accessor, name := some method }]

/-- The mention of a field in a query block. -/
def fieldMention (offset : Nat) (accessor key : String) : Mention :=
  { raw := key, kind := .field, offset := some offset, owner := some accessor, name := some key }

/-- The mention of a relation in an include block. -/
def relationMention (offset : Nat) (accessor key : String) : Mention :=
  { raw := "include: \x7b " ++ key ++ " \x7d", kind := .relation, offset := some offset,
    owner := some accessor, name := some key }

/-- The keys of the blocks that match, each with the call it belongs to. -/
def blockMentions (block : Pattern) (counts : String → Bool)
    (mention : Nat → String → String → Mention) (clients : List String) (code : List Char) :
    List Mention :=
  (block.findAll code).flatMap fun m =>
    match nearestAccessor clients code m.start with
    | some accessor =>
      ((topLevelKeys code m.stop).filter counts).map (mention m.stop accessor)
    | none => []

/-- The models, methods, fields and relations that the code of the plan mentions, each once.  The
owner is the accessor of the model as the plan writes it. -/
def mentions (plan : List Char) : List Mention :=
  let code := Plan.codeRegions plan
  let clients := clientNames code
  firstPerKey (fun m => (m.kind, m.raw, m.owner))
    (((modelCall clients).findAll code).flatMap callMentions ++
      blockMentions queryBlock (fun key => !operatorKeys.contains key) fieldMention clients code ++
      blockMentions includeBlock (· != "_count") relationMention clients code)

end PlanAudit.Prisma
