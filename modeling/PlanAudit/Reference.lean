import PlanAudit.Text.Basic

/-!
# References

A plan mentions things of the project: files, tables, routes, packages.  A mention is what is read
off the plan alone; a reference is a mention that has been judged against the project.

## Main definitions

* `Kind`: what sort of thing is mentioned
* `Mention`: a candidate reference recovered from the plan
* `Category`: why a reference is rejected
* `Reference`: a mention with its judgement
* `Reference.dedupe`: the references, of those with the same evidence only the first
-/

namespace PlanAudit

/-! ## Mentions -/

/-- What sort of thing is mentioned. -/
inductive Kind where
  | env
  | importSource
  | member
  | path
  | model
  | method
  | field
  | relation
  | route
  | table
  | column
  | embed
  | function
  | type
  | namedImport
  /-- A sort of thing that no checker of this library looks for. -/
  | other (label : String)
  deriving DecidableEq, Repr

namespace Kind

/-- The sorts of things that the checkers look for. -/
def known : List Kind :=
  [env, importSource, member, path, model, method, field, relation, route, table, column, embed,
    function, type, namedImport]

/-- The word for a sort of thing. -/
def label : Kind → String
  | env => "env"
  | importSource => "import"
  | member => "member"
  | path => "path"
  | model => "model"
  | method => "method"
  | field => "field"
  | relation => "relation"
  | route => "route"
  | table => "table"
  | column => "column"
  | embed => "embed"
  | function => "function"
  | type => "type"
  | namedImport => "named-import"
  | other label => label

/-- The sort of thing with the given word. -/
def ofLabel (s : String) : Kind := (known.find? fun k => k.label == s).getD (other s)

@[simp] theorem label_ofLabel (s : String) : (ofLabel s).label = s := by
  unfold ofLabel
  cases h : known.find? fun k => k.label == s with
  | none => rfl
  | some k => simpa using List.find?_some h

end Kind

/-- A candidate reference recovered from the text of a plan. -/
structure Mention where
  /-- The mention as the report shows it. -/
  raw : String
  /-- What sort of thing is mentioned. -/
  kind : Kind
  /-- The position in the text that was searched, where it is known. -/
  offset : Option Nat := none
  /-- The thing that encloses what is mentioned: a model accessor, a table, a type, a package, a
  URL path. -/
  owner : Option String := none
  /-- What is addressed on the owner: a field, a column, a member, a subpath. -/
  name : Option String := none
  /-- The HTTP method, for routes. -/
  method : Option String := none
  deriving DecidableEq, Repr

namespace Mention

/-- The owner, or the empty name. -/
def ownerName (m : Mention) : String := m.owner.getD ""

/-- The name addressed on the owner, or the empty name. -/
def memberName (m : Mention) : String := m.name.getD ""

end Mention

/-! ## Judgements -/

/-- Why a reference is rejected. -/
inductive Category where
  | path
  | model
  | field
  | invalidMethod
  | wrongRelation
  | table
  | column
  | function
  | type
  | member
  | route
  | httpMethod
  | namedImport
  | packageNotFound
  | subpathNotExported
  | envVariable
  deriving DecidableEq, Repr

namespace Category

/-- All categories. -/
def all : List Category :=
  [path, model, field, invalidMethod, wrongRelation, table, column, function, type, member, route,
    httpMethod, namedImport, packageNotFound, subpathNotExported, envVariable]

/-- The word for a category in reports. -/
def label : Category → String
  | path => "hallucinated-path"
  | model => "hallucinated-model"
  | field => "hallucinated-field"
  | invalidMethod => "invalid-method"
  | wrongRelation => "wrong-relation"
  | table => "hallucinated-table"
  | column => "hallucinated-column"
  | function => "hallucinated-function"
  | type => "hallucinated-type"
  | member => "hallucinated-member"
  | route => "hallucinated-route"
  | httpMethod => "hallucinated-method"
  | namedImport => "hallucinated-named-import"
  | packageNotFound => "package-not-found"
  | subpathNotExported => "subpath-not-exported"
  | envVariable => "not-in-env-files"

/-- The category with the given word. -/
def ofLabel? (s : String) : Option Category := all.find? fun c => c.label == s

/-- What a finding of the category says about its target. -/
def message (c : Category) (target : String) : String :=
  match c with
  | path => s!"Path does not exist: {target}"
  | model => s!"Prisma model not found: {target}"
  | field => s!"Prisma field not found: {target}"
  | invalidMethod => s!"Invalid Prisma method: {target}"
  | wrongRelation => s!"Invalid relation: {target}"
  | table => s!"Table not found: {target}"
  | column => s!"Column not found: {target}"
  | function => s!"Function not found: {target}"
  | type => s!"TypeScript type not found: {target}"
  | member => s!"Member not found: {target}"
  | route => s!"Route not found: {target}"
  | httpMethod => s!"HTTP method not allowed: {target}"
  | namedImport => s!"Named export not found: {target}"
  | packageNotFound => s!"Package not installed: {target}"
  | subpathNotExported => s!"Subpath not exported: {target}"
  | envVariable => s!"Env variable not defined: {target}"

end Category

/-- What a finding says about its target, given the word for its category. -/
def messageFor (category target : String) : String :=
  match Category.ofLabel? category with
  | some c => c.message target
  | none => s!"Hallucinated reference: {target}"

/-- A mention that has been judged. -/
structure Reference extends Mention where
  /-- Whether the thing exists. -/
  valid : Bool
  /-- Why the reference is rejected. -/
  category : Option Category := none
  /-- What may have been meant. -/
  suggestion : Option String := none
  /-- Whether the plan announces that it will create the thing. -/
  intentionalNew : Bool := false
  deriving DecidableEq, Repr

namespace Mention

/-- The mention with a judgement; one that is valid has neither category nor suggestion. -/
def judge (m : Mention) (valid : Bool) (category : Option Category) (suggestion : Option String)
    (intentionalNew : Bool) : Reference :=
  { m with
    valid := valid
    category := if valid then none else category
    suggestion := if valid then none else suggestion
    intentionalNew := intentionalNew }

/-- The mention of a thing that exists. -/
def accept (m : Mention) : Reference := m.judge true none none false

/-- The mention of a thing that the plan will create. -/
def announce (m : Mention) : Reference := m.judge false none none true

/-- The mention of a thing that does not exist. -/
def reject (m : Mention) (category : Category) (suggestion : Option String := none) : Reference :=
  m.judge false (some category) suggestion false

end Mention

namespace Reference

/-- Whether the thing neither exists nor will be created. -/
def hallucinated (r : Reference) : Bool := !r.valid && !r.intentionalNew

/-- What makes two references the same evidence. -/
def evidence (r : Reference) : String × Kind × Bool × Option Category :=
  (r.raw, r.kind, r.valid, r.category)

/-- The references, of those with the same evidence only the first. -/
def dedupe (refs : List Reference) : List Reference := Text.firstPerKey evidence refs

@[simp] theorem hallucinated_accept (m : Mention) : m.accept.hallucinated = false := rfl

@[simp] theorem hallucinated_announce (m : Mention) : m.announce.hallucinated = false := rfl

@[simp] theorem hallucinated_reject (m : Mention) (c : Category) (s : Option String) :
    (m.reject c s).hallucinated = true := rfl

end Reference

end PlanAudit
