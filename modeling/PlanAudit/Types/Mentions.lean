import PlanAudit.Plan.Code
import PlanAudit.Reference
import PlanAudit.Types.Words

/-!
# Types in a plan

The code of a plan mentions types by their names in Pascal case, and members of types.  Types that
the plan itself declares or announces are not expected to exist.

## Main definitions

* `isPascalCase`, `isIgnoredType`: which names count as types
* `hasCreateSignal`: whether the plan declares or announces a type
* `mentions`: the types and members that a plan expects to exist
-/

namespace PlanAudit.Types

open PlanAudit.Text Pattern

/-! ## Names -/

/-- A capital letter followed by letters and digits, of ASCII. -/
def pascalName : Pattern := one isUpperAscii ++ plus (one isAlphanumericAscii) ++ textEnd

/-- Whether the name is in Pascal case and not an acronym. -/
def isPascalCase (name : String) : Bool :=
  pascalName.matchesStart name.toList && name.toList.any isLowerAscii

/-- A single capital letter. -/
def typeParameter : Pattern := one isUpperAscii ++ textEnd

/-- Whether the name is one that no project is expected to declare. -/
def isIgnoredType (name : String) : Bool :=
  builtinTypes.contains name || commonWords.contains name ||
    typeParameter.matchesStart name.toList

/-! ## Announcements -/

/-- The kinds of declarations in any case. -/
def declarationKind : Pattern := oneOfTextsAnyCase ["interface", "type", "enum", "class"]

/-- The phrases that announce the type. -/
def announcementPatterns (type : String) : List Pattern :=
  let named := declarationKind ++ blanks1 ++ opt (char '\x60') ++ litAnyCase type
  let article := opt (litAnyCase "a" ++ blanks1) ++ opt (litAnyCase "new" ++ blanks1)
  [litAnyCase "create" ++ blanks1 ++ article ++ named,
    litAnyCase "define" ++ blanks1 ++ article ++ named,
    litAnyCase "add" ++ blanks1 ++ article ++ named,
    litAnyCase "new" ++ blanks1 ++ named]

/-- The declarations of the type. -/
def declarationPatterns (type : String) : List Pattern :=
  let head (keyword : String) := lit keyword ++ blanks1 ++ lit type ++ blanks
  [head "interface" ++ (lit "extends" ||| oneOf "<\x7b"),
    head "type" ++ opt (char '<' ++ star (one (· != '>')) ++ char '>') ++ blanks ++ char '=',
    head "enum" ++ char '{',
    head "class" ++ (lit "extends" ||| lit "implements" ||| oneOf "<\x7b"),
    head "function" ++ oneOf "(<",
    head "const" ++ oneOf ":="]

/-- Whether the plan declares or announces the type itself. -/
def hasCreateSignal (type : String) (plan : List Char) : Bool :=
  (announcementPatterns type).any (·.occursIn plan) ||
    (declarationPatterns type).any (·.occursIn plan)

/-! ## Mentions -/

/-- A name that starts with a capital letter. -/
def typeName : Pattern := one isUpperAscii ++ plus word

/-- A type after a colon or a cast. -/
def annotatedType : Pattern :=
  (char ':' ||| (wordEdge ++ lit "as")) ++ blanks1 ++ capture 1 typeName

/-- A list of types between angle brackets. -/
def typeArguments : Pattern :=
  char '<' ++ capture 1 (typeName ++ star (blanks ++ char ',' ++ blanks ++ typeName)) ++ char '>'

/-- A member after a dot. -/
def staticAccess : Pattern :=
  wordEdge ++ capture 1 typeName ++ char '.' ++ capture 2 (one isLowerAscii ++ star word)

/-- A member between square brackets. -/
def bracketAccess : Pattern :=
  capture 1 typeName ++ char '[' ++ quote ++ capture 2 name ++ quote ++ char ']'

/-- A type that is extended or implemented. -/
def heritage : Pattern := oneOfTexts ["extends", "implements"] ++ blanks1 ++ capture 1 typeName

/-- A type of which a value is made. -/
def construction : Pattern :=
  lit "new" ++ blanks1 ++ capture 1 typeName ++ blanks ++ char '('

/-- The mention of a type. -/
def typeMention (type : String) : Mention := { raw := type, kind := .type, owner := some type }

/-- The mention of a member of a type. -/
def memberMention (type member raw : String) : Mention :=
  { raw := raw, kind := .member, owner := some type, name := some member }

/-- What makes two mentions the same: the type and the member. -/
def mentionKey (m : Mention) : String × Option String := (m.ownerName, m.name)

/-- The mentions of a match of a pattern that captures one type. -/
def captureMentions (p : Pattern) (code : List Char) : List Mention :=
  (p.findAll code).map fun m => typeMention (m.name 1)

/-- Every mention in the code, before names that do not count are left out. -/
def allMentions (code : List Char) : List Mention :=
  captureMentions annotatedType code ++
    ((typeArguments.findAll code).flatMap fun m =>
      (commaParts (m.group 1)).map fun part => typeMention (String.ofList part)) ++
    (((staticAccess.findAll code).filter fun m => !commonMethods.contains (m.name 2)).map fun m =>
      memberMention (m.name 1) (m.name 2) (m.name 1 ++ "." ++ m.name 2)) ++
    ((bracketAccess.findAll code).map fun m =>
      memberMention (m.name 1) (m.name 2) (m.name 1 ++ "['" ++ m.name 2 ++ "']")) ++
    captureMentions heritage code ++ captureMentions construction code

/-- The types and members that the plan expects to exist, each once. -/
def mentions (plan : List Char) : List Mention :=
  (firstPerKey mentionKey
    ((allMentions (Plan.codeRegions plan)).filter fun m =>
      isPascalCase m.ownerName && !isIgnoredType m.ownerName)).filter
    fun m => !hasCreateSignal m.ownerName plan

end PlanAudit.Types
