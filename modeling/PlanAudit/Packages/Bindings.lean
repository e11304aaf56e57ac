import PlanAudit.Packages.Name
import PlanAudit.Plan.Code
import PlanAudit.Reference

/-!
# Names bound by imports

Only fenced blocks are read: in prose the word `import` binds nothing.

## Main definitions

* `Binding`: a local name bound by an import
* `bindings`: the names bound in the fenced blocks of a plan
* `memberMentions`: the accesses to members of bound names
-/

namespace PlanAudit.Packages

open PlanAudit.Text Pattern

/-! ## Bindings -/

/-- What a local name is bound to. -/
inductive ImportForm where
  /-- The default export. -/
  | default
  /-- All exports together. -/
  | namespace
  /-- One export by name. -/
  | named
  deriving DecidableEq, Repr

/-- The word for a form of import. -/
def ImportForm.label : ImportForm → String
  | .default => "default"
  | .namespace => "namespace"
  | .named => "named"

/-- A local name bound by an import. -/
structure Binding where
  /-- The name in the code. -/
  localName : String
  /-- The package it comes from. -/
  package : String
  /-- What it is bound to. -/
  form : ImportForm
  /-- The name of the export, where it differs. -/
  originalName : Option String := none
  deriving DecidableEq, Repr

/-- The name of the export that the binding stands for. -/
def Binding.exportName (b : Binding) : String :=
  match b.originalName with
  | some name => if name = "" then b.localName else name
  | none => b.localName

/-- What makes two bindings the same. -/
def Binding.key (b : Binding) : String × String × ImportForm := (b.localName, b.package, b.form)

/-! ## Import clauses -/

/-- All exports under one name. -/
def namespaceClause : Pattern :=
  char '*' ++ blanks1 ++ lit "as" ++ blanks1 ++ capture 1 name ++ textEnd

/-- The default export and a list of names. -/
def defaultAndNamedClause : Pattern :=
  capture 1 name ++ blanks ++ char ',' ++ blanks ++ char '{' ++ capture 2 (star anything) ++
    char '}' ++ textEnd

/-- The default export and all exports under one name. -/
def defaultAndNamespaceClause : Pattern :=
  capture 1 name ++ blanks ++ char ',' ++ blanks ++ char '*' ++ blanks1 ++ lit "as" ++ blanks1 ++
    capture 2 name ++ textEnd

/-- A list of names. -/
def namedClause : Pattern := char '{' ++ capture 1 (star anything) ++ char '}' ++ textEnd

/-- An export under another name. -/
def aliasClause : Pattern :=
  capture 1 name ++ blanks1 ++ lit "as" ++ blanks1 ++ capture 2 name ++ textEnd

/-- The binding made by one part of a list of names; types bind nothing at run time. -/
def namedBinding? (package : String) (part : List Char) : Option Binding :=
  if beginsWith "type ".toList part then none
  else
    match aliasClause.matchStart part with
    | some m => some ⟨m.name 2, package, .named, some (m.name 1)⟩
    | none =>
      if soleName.matchesStart part then some ⟨String.ofList part, package, .named, none⟩ else none

/-- The bindings made by a list of names. -/
def namedBindings (package : String) (list : List Char) : List Binding :=
  (commaParts list).filterMap (namedBinding? package)

/-- The bindings made by the clause between `import` and `from`. -/
def clauseBindings (package : String) (clause : List Char) : List Binding :=
  match namespaceClause.matchStart clause with
  | some m => [⟨m.name 1, package, .namespace, none⟩]
  | none =>
    match defaultAndNamedClause.matchStart clause with
    | some m => ⟨m.name 1, package, .default, none⟩ :: namedBindings package (m.group 2)
    | none =>
      match defaultAndNamespaceClause.matchStart clause with
      | some m => [⟨m.name 1, package, .default, none⟩, ⟨m.name 2, package, .namespace, none⟩]
      | none =>
        match namedClause.matchStart clause with
        | some m => namedBindings package (m.group 1)
        | none =>
          if !beginsWith "type ".toList clause && soleName.matchesStart clause then
            [⟨String.ofList clause, package, .default, none⟩]
          else []

/-! ## Assigned modules -/

/-- The text inside the braces of a destructuring pattern.  Where the closing brace is missing, the
last character is dropped in its place. -/
def insideBraces (pattern : List Char) : List Char :=
  match findLast? ['}'] pattern with
  | some n => slice pattern 1 n
  | none => slice pattern 1 (pattern.length - 1)

/-- The binding made by one part of a destructuring pattern. -/
def destructuredBinding? (package : String) (part : List Char) : Option Binding :=
  if part.isEmpty then none
  else if part.contains ':' then
    let original := part.takeWhile (· != ':')
    let renamed := (part.dropWhile (· != ':')).drop 1
    some ⟨String.ofList (strip renamed), package, .named, some (String.ofList (strip original))⟩
  else some ⟨String.ofList part, package, .named, none⟩

/-- The bindings made by assigning a loaded module to a pattern. -/
def assignedBindings (package : String) (pattern : List Char) : List Binding :=
  if beginsWith ['{'] pattern then
    (commaParts (insideBraces pattern)).filterMap (destructuredBinding? package)
  else [⟨String.ofList pattern, package, .default, none⟩]

/-! ## Bindings of a plan -/

/-- An import with a clause. -/
def importStatement : Pattern :=
  wordEdge ++ lit "import" ++ blanks1 ++ capture 1 (starLazy (noneOf "'\";")) ++ blanks1 ++
    lit "from" ++ blanks1 ++ quoted 2

/-- A character of a destructuring pattern. -/
def isPatternChar (c : Char) : Bool := isWord c || isBlank c || "\x7b\x7d,:*".toList.contains c

/-- A loaded module assigned to a variable or a pattern. -/
def requireStatement : Pattern :=
  wordEdge ++ oneOfTexts ["const", "let", "var"] ++ blanks1 ++
    capture 1 (plusLazy (one isPatternChar)) ++ blanks ++ char '=' ++ blanks ++ lit "require" ++
    blanks ++ char '(' ++ blanks ++ quoted 2 ++ blanks ++ char ')'

/-- The bindings made by the statements of one form, local specifiers left out. -/
def statementBindings (statement : Pattern) (read : String → List Char → List Binding)
    (code : List Char) : List Binding :=
  (statement.findAll code).flatMap fun m =>
    let source := m.name 2
    if isLocalSpecifier source then [] else read (splitSpecifier source).package (strip (m.group 1))

/-- The names bound to packages in the fenced blocks of the plan, each once. -/
def bindings (plan : List Char) : List Binding :=
  let code := Plan.joinedBlocks plan
  firstPerKey Binding.key
    (statementBindings importStatement clauseBindings code ++
      statementBindings requireStatement assignedBindings code)

/-! ## Members -/

/-- Members that every value has. -/
def universalMembers : List String :=
  ["toString", "valueOf", "constructor", "then", "catch", "finally", "message", "data", "name",
    "length", "prototype", "apply", "call", "bind", "hasOwnProperty", "isPrototypeOf",
    "propertyIsEnumerable", "toLocaleString"]

/-- A member access. -/
def memberAccess : Pattern :=
  wordEdge ++ capture 1 name ++ char '.' ++ capture 2 name ++ wordEdge

/-- The mention made by a member access to one of the names, unless every value has the member. -/
def memberMention? (names : List String) (m : Match) : Option Mention :=
  let object := m.name 1
  let member := m.name 2
  if names.contains object && !universalMembers.contains member then
    some { raw := object ++ "." ++ member, kind := .member, owner := some object,
           name := some member }
  else none

/-- The accesses to members of bound names in the fenced blocks of the plan, each once. -/
def memberMentions (plan : List Char) (bound : List Binding) : List Mention :=
  firstPerKey Mention.raw
    ((memberAccess.findAll (Plan.joinedBlocks plan)).filterMap
      (memberMention? (bound.map (·.localName))))

end PlanAudit.Packages
