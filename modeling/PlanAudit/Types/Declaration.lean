import PlanAudit.Catalog
import PlanAudit.Pattern.Build

/-!
# Type declarations

Interfaces, type aliases, enumerations and classes that stand at the start of a line.  A body ends
at the first closing brace at the start of a line; members are read line by line.

## Main definitions

* `Member`, `Declaration`: what is declared
* `objectMembers`, `enumMembers`, `classMembers`: the members in a body
* `declarations`: the declarations of a text
* `Index`: the declarations of a project by name
-/

namespace PlanAudit.Types

open PlanAudit.Text Pattern

/-- What sort of member it is. -/
inductive MemberKind where
  | property
  | method
  | enumMember
  deriving DecidableEq, Repr

/-- The word for a sort of member. -/
def MemberKind.label : MemberKind → String
  | .property => "property"
  | .method => "method"
  | .enumMember => "enum-member"

/-- A member of a declaration. -/
structure Member where
  /-- The name of the member. -/
  name : String
  /-- What sort of member it is. -/
  kind : MemberKind
  deriving DecidableEq, Repr

/-- What sort of declaration it is. -/
inductive DeclarationKind where
  | interface
  | alias
  | enumeration
  | classType
  deriving DecidableEq, Repr

/-- The word for a sort of declaration. -/
def DeclarationKind.label : DeclarationKind → String
  | .interface => "interface"
  | .alias => "type"
  | .enumeration => "enum"
  | .classType => "class"

/-- A declared type. -/
structure Declaration where
  /-- The name of the type. -/
  name : String
  /-- What sort of declaration it is. -/
  kind : DeclarationKind
  /-- The members by name. -/
  members : Catalog Member
  /-- The file that declares it. -/
  sourceFile : String

/-- The declarations of a project by name. -/
abbrev Index := Catalog Declaration

/-! ## Members -/

/-- Words that are not names of members. -/
def keywords : List String :=
  ["if", "else", "for", "while", "do", "switch", "case", "break", "continue", "return", "throw",
    "try", "catch", "finally", "new", "delete", "typeof", "void", "in", "of", "instanceof",
    "yield", "await", "import", "export", "default", "const", "let", "var", "function", "class",
    "extends", "super", "this", "constructor"]

/-- The lines of a body without white space around them, blank lines and comments left out. -/
def bodyLines (body : List Char) : List (List Char) :=
  ((body.splitOn '\n').map strip).filter fun line =>
    !line.isEmpty && !beginsWith "//".toList line && !beginsWith "/*".toList line

/-- An optional question mark. -/
def optionalMark : Pattern := opt (char '?')

/-- A method of an object type. -/
def objectMethod : Pattern := capture 1 name ++ optionalMark ++ blanks ++ oneOf "(<"

/-- A property of an object type. -/
def objectProperty : Pattern :=
  opt (lit "readonly" ++ blanks1) ++ capture 1 name ++ optionalMark ++ blanks ++ char ':'

/-- A member of an enumeration. -/
def enumMemberLine : Pattern :=
  capture 1 name ++ ((blanks ++ char '=') ||| (blanks ++ char ',') ||| (blanks ++ textEnd))

/-- The words before a member of a class. -/
def modifiers : Pattern :=
  star (oneOfTexts
    ["public", "private", "protected", "static", "abstract", "async", "override", "readonly"] ++
      blanks1)

/-- A method of a class. -/
def classMethod : Pattern := modifiers ++ capture 1 name ++ optionalMark ++ blanks ++ oneOf "(<"

/-- A property of a class. -/
def classProperty : Pattern := modifiers ++ capture 1 name ++ optionalMark ++ blanks ++ oneOf ":="

/-- The member that a line matches, if its name is allowed. -/
def memberBy (p : Pattern) (kind : MemberKind) (allowed : String → Bool) (line : List Char) :
    Option Member :=
  match p.matchStart line with
  | none => none
  | some m => if allowed (m.name 1) then some ⟨m.name 1, kind⟩ else none

/-- Whether the word may be the name of a member. -/
def isMemberName (word : String) : Bool := !keywords.contains word

/-- The member that a line of an object type declares. -/
def objectMember? (line : List Char) : Option Member :=
  (memberBy objectMethod .method isMemberName line).or
    (memberBy objectProperty .property (fun _ => true) line)

/-- The member that a line of an enumeration declares. -/
def enumMember? (line : List Char) : Option Member :=
  memberBy enumMemberLine .enumMember (fun _ => true) line

/-- The member that a line of a class declares. -/
def classMember? (line : List Char) : Option Member :=
  (memberBy classMethod .method isMemberName line).or
    (memberBy classProperty .property isMemberName line)

/-- The members that the lines of a body declare. -/
def membersBy (read : List Char → Option Member) (body : List Char) : Catalog Member :=
  Catalog.ofList (((bodyLines body).filterMap read).map fun m => (m.name, m))

/-- The members of the body of an interface or object type. -/
def objectMembers (body : List Char) : Catalog Member := membersBy objectMember? body

/-- The members of the body of an enumeration. -/
def enumMembers (body : List Char) : Catalog Member := membersBy enumMember? body

/-- The members of the body of a class, without its constructor. -/
def classMembers (body : List Char) : Catalog Member := membersBy classMember? body

/-! ## Declarations -/

/-- A body from its opening brace to a closing brace at the start of a line. -/
def bracedBody (index : Nat) : Pattern :=
  char '{' ++ capture index (starLazy anything) ++ lineStart ++ char '}'

/-- An optional `export`. -/
def optionalExport : Pattern := opt (lit "export" ++ blanks1)

/-- Type parameters of an interface or class. -/
def typeParameters : Pattern := opt (char '<' ++ starLazy (one (· != '{')) ++ char '>')

/-- A character of a list of extended types. -/
def isHeritageChar (c : Char) : Bool := isWord c || isBlank c || ",<>.".toList.contains c

/-- What an interface extends. -/
def interfaceHeritage : Pattern :=
  opt (blanks1 ++ lit "extends" ++ blanks1 ++ plus (one isHeritageChar))

/-- What a class extends and implements. -/
def classHeritage : Pattern :=
  opt (blanks1 ++ (lit "extends" ||| lit "implements") ++ starLazy anything)

/-- An interface after the given words. -/
def interfaceAfter (words : Pattern) : Pattern :=
  lineStart ++ words ++ lit "interface" ++ blanks1 ++ capture 1 name ++ typeParameters ++
    interfaceHeritage ++ blanks ++ bracedBody 2

/-- An interface. -/
def interfaceBlock : Pattern := interfaceAfter optionalExport

/-- The head of a type alias up to its equals sign. -/
def aliasHead : Pattern :=
  lineStart ++ optionalExport ++ lit "type" ++ blanks1 ++ capture 1 name ++
    opt (char '<' ++ plus (one (· != '>')) ++ char '>') ++ blanks ++ char '='

/-- An alias of an object type. -/
def objectAlias : Pattern := aliasHead ++ blanks ++ bracedBody 2

/-- An alias of any other type. -/
def otherAlias : Pattern := aliasHead ++ one (· != '{')

/-- An enumeration. -/
def enumBlock : Pattern :=
  lineStart ++ optionalExport ++ opt (lit "const" ++ blanks1) ++ lit "enum" ++ blanks1 ++
    capture 1 name ++ blanks ++ bracedBody 2

/-- A class after the given words. -/
def classAfter (words : Pattern) : Pattern :=
  lineStart ++ words ++ opt (lit "abstract" ++ blanks1) ++ lit "class" ++ blanks1 ++
    capture 1 name ++ classHeritage ++ blanks ++ bracedBody 2

/-- A class. -/
def classBlock : Pattern := classAfter optionalExport

/-- The declarations that match a pattern, with members read from the second capture. -/
def declarationsBy (p : Pattern) (kind : DeclarationKind) (members : List Char → Catalog Member)
    (file : String) (content : List Char) : List Declaration :=
  (p.findAll content).map fun m => ⟨m.name 1, kind, members (m.group 2), file⟩

/-- The declarations and then the aliases whose names are not declared yet. -/
def addAliases (file : String) (found : List Declaration) (aliases : List String) :
    List Declaration :=
  aliases.foldl
    (fun ds n => if ds.any (·.name == n) then ds else ds ++ [⟨n, .alias, .empty, file⟩]) found

/-- The declarations of a text: interfaces, aliases of object types, other aliases, enumerations
and classes. -/
def declarations (content : List Char) (file : String) : List Declaration :=
  let interfaces := declarationsBy interfaceBlock .interface objectMembers file content
  let objects := declarationsBy objectAlias .alias objectMembers file content
  let others := (otherAlias.findAll content).map (Match.name · 1)
  addAliases file (interfaces ++ objects) others ++
    declarationsBy enumBlock .enumeration enumMembers file content ++
    declarationsBy classBlock .classType classMembers file content

/-- The index with the declarations added; a later declaration of a name replaces an earlier one. -/
def Index.add (index : Index) (found : List Declaration) : Index :=
  found.foldl (fun i d => i.insert d.name d) index

end PlanAudit.Types
