import PlanAudit.Catalog
import PlanAudit.Text.Basic

/-!
# Files of assignments

A file of assignments gives values to names, as in `export NAME='some value'  # why`.  A value may
be quoted, in which case it may run over several lines and hold escapes; a value may refer to names
that have a value already.  A line that cannot be read is passed over.

## Main definitions

* `Assignment`: a name with its value
* `assignments`: the assignments of a text
* `expand`: a value with its references to other names replaced
* `assignedValues`: the names of a text with their values
-/

namespace PlanAudit.Settings

open Text

/-! ## White space and line ends -/

/-- A line feed or a carriage return. -/
def isLineEnd (c : Char) : Bool := c == '\n' || c == '\r'

/-- White space that does not end a line. -/
def isSpaceInLine (c : Char) : Bool := isBlank c && !isLineEnd c

/-- The text without white space before what the line goes on with. -/
def skipSpaceInLine (text : List Char) : List Char := text.dropWhile isSpaceInLine

/-- What follows the end of the line, if the line ends here but for white space. -/
def afterLine? (text : List Char) : Option (List Char) :=
  match skipSpaceInLine text with
  | [] => some []
  | '\r' :: '\n' :: rest => some rest
  | c :: rest => if isLineEnd c then some rest else none

/-- What follows the line and one character that ends it. -/
def skipLine (text : List Char) : List Char := (text.dropWhile (!isLineEnd ·)).drop 1

/-- What follows a comment, if the line goes on with one. -/
def skipComment (text : List Char) : List Char :=
  match skipSpaceInLine text with
  | '#' :: rest => rest.dropWhile (!isLineEnd ·)
  | _ => text

/-! ## Quoted texts -/

/-- A quoted text and what follows its end, after the opening quotation mark.  A backslash always
takes the next character along, so a quotation mark after it does not end the text. -/
def splitQuoted? (mark : Char) : List Char → Option (List Char × List Char)
  | [] => none
  | '\\' :: c :: rest =>
    (splitQuoted? mark rest).map fun (body, after) => ('\\' :: c :: body, after)
  | c :: rest =>
    if c == mark then some ([], rest)
    else (splitQuoted? mark rest).map fun (body, after) => (c :: body, after)

/-- The escapes between single quotation marks. -/
def singleEscapes : List (Char × Char) := [('\\', '\\'), ('\'', '\'')]

/-- The escapes between double quotation marks. -/
def doubleEscapes : List (Char × Char) :=
  singleEscapes ++ [('"', '"'), ('a', '\x07'), ('b', '\x08'), ('f', '\x0c'), ('n', '\n'),
    ('r', '\r'), ('t', '\t'), ('v', '\x0b')]

/-- The text with its escapes replaced; other backslashes stay. -/
def unescaped (escapes : List (Char × Char)) : List Char → List Char
  | '\\' :: c :: rest =>
    match escapes.lookup c with
    | some d => d :: unescaped escapes rest
    | none => '\\' :: unescaped escapes (c :: rest)
  | c :: rest => c :: unescaped escapes rest
  | [] => []

/-! ## Assignments -/

/-- A name with its value, if it is given one. -/
structure Assignment where
  /-- The name. -/
  name : List Char
  /-- The value as it is written, without quotation marks and escapes. -/
  value : Option (List Char)
  deriving DecidableEq, Repr

/-- What is read from the start of a text, with what follows; or else the text from where it could
not be read. -/
abbrev Reading (α : Type) := Except (List Char) (α × List Char)

/-- What follows the word `export` and white space, if the text begins so. -/
def skipExport (text : List Char) : List Char :=
  if beginsWith "export".toList text then
    let rest := text.drop "export".toList.length
    if rest.head?.any isSpaceInLine then skipSpaceInLine rest else text
  else text

/-- A character that a bare name may hold. -/
def isNameChar (c : Char) : Bool := c != '=' && c != '#' && !isBlank c

/-- The name at the start of a text; none before a comment. -/
def readName (text : List Char) : Reading (Option (List Char)) :=
  match text with
  | '#' :: _ => .ok (none, text)
  | '\'' :: rest =>
    let name := rest.takeWhile (· != '\'')
    match rest.dropWhile (· != '\'') with
    | _ :: after => if name.isEmpty then .error text else .ok (some name, after)
    | [] => .error text
  | _ =>
    let name := text.takeWhile isNameChar
    if name.isEmpty then .error text else .ok (some name, text.dropWhile isNameChar)

/-- The text without a comment that follows white space. -/
def withoutComment : List Char → List Char
  | [] => []
  | c :: rest =>
    if isBlank c && (rest.dropWhile isBlank).head? == some '#' then [] else c :: withoutComment rest

/-- The quoted value after its opening quotation mark. -/
def readQuoted (mark : Char) (escapes : List (Char × Char)) (text : List Char) :
    Reading (List Char) :=
  match splitQuoted? mark text with
  | some (body, rest) => .ok (unescaped escapes body, rest)
  | none => .error (mark :: text)

/-- The value at the start of a text: quoted, or else bare up to the end of the line or up to white
space with a comment behind it. -/
def readValue (text : List Char) : Reading (List Char) :=
  match skipSpaceInLine text with
  | '\'' :: rest => readQuoted '\'' singleEscapes rest
  | '"' :: rest => readQuoted '"' doubleEscapes rest
  | _ =>
    .ok (strip (withoutComment (text.takeWhile (!isLineEnd ·))), text.dropWhile (!isLineEnd ·))

/-- The value after an equality sign; none if there is no such sign. -/
def readAssigned (text : List Char) : Reading (Option (List Char)) :=
  match text with
  | '=' :: rest => (readValue rest).map fun (value, rest) => (some value, rest)
  | _ => .ok (none, text)

/-- The assignment at the start of a text that does not begin with white space; none if there is
only a comment. -/
def readAssignment (text : List Char) : Reading (Option Assignment) :=
  (readName (skipExport text)).bind fun (name, rest) =>
    (readAssigned (skipSpaceInLine rest)).bind fun (value, rest) =>
      match afterLine? (skipComment rest) with
      | some next => .ok (name.map fun name => ⟨name, value⟩, next)
      | none => .error (skipComment rest)

/-- The assignments of a text, of which at most `fuel` lines are read. -/
def assignmentsWithin : Nat → List Char → List Assignment
  | 0, _ => []
  | fuel + 1, text =>
    match text.dropWhile isBlank with
    | [] => []
    | line =>
      match readAssignment line with
      | .ok (some a, rest) => a :: assignmentsWithin fuel rest
      | .ok (none, rest) => assignmentsWithin fuel rest
      | .error rest => assignmentsWithin fuel (skipLine rest)

/-- The text without a byte order mark at its start. -/
def withoutOrderMark : List Char → List Char
  | '\uFEFF' :: rest => rest
  | text => text

/-- The assignments of a text.  A byte order mark at its start is no part of it. -/
def assignments (text : List Char) : List Assignment :=
  assignmentsWithin (text.length + 1) (withoutOrderMark text)

/-! ## References to other names -/

/-- A reference to a name, and the value it stands for if the name has none. -/
structure NameReference where
  /-- The name. -/
  name : String
  /-- The value without one of its own. -/
  fallback : List Char
  deriving DecidableEq, Repr

/-- The reference at the start of a text, after its dollar sign and brace, and what follows it. -/
def readReference? (text : List Char) : Option (NameReference × List Char) :=
  let name := String.ofList (text.takeWhile fun c => c != '}' && c != ':')
  match text.dropWhile fun c => c != '}' && c != ':' with
  | '}' :: rest => some (⟨name, []⟩, rest)
  | ':' :: '-' :: rest =>
    match rest.dropWhile (· != '}') with
    | _ :: after => some (⟨name, rest.takeWhile (· != '}')⟩, after)
    | [] => none
  | _ => none

/-- The value with its references replaced, of which at most `fuel` characters are looked at. -/
def expandWithin (valueOf : String → Option (List Char)) : Nat → List Char → List Char
  | 0, _ => []
  | _, [] => []
  | fuel + 1, '$' :: '{' :: text =>
    match readReference? text with
    | some (r, rest) => (valueOf r.name).getD r.fallback ++ expandWithin valueOf fuel rest
    | none => '$' :: expandWithin valueOf fuel ('{' :: text)
  | fuel + 1, c :: text => c :: expandWithin valueOf fuel text

/-- The value with its references to names replaced. -/
def expand (valueOf : String → Option (List Char)) (value : List Char) : List Char :=
  expandWithin valueOf value.length value

/-- The value of a name: that of the file so far, where a name without value counts as empty, or
else that from outside. -/
def valueSoFar (outside : List (String × String)) (known : Catalog (Option String))
    (name : String) : Option (List Char) :=
  match known.find? name with
  | some value => some ((value.getD "").toList)
  | none => (outside.lookup name).map String.toList

/-- The names that a text gives values to, with their values; values may refer to names before them
and to those from outside. -/
def assignedValues (outside : List (String × String)) (text : List Char) :
    Catalog (Option String) :=
  (assignments text).foldl (fun known a =>
      known.insert (String.ofList a.name)
        (a.value.map fun value => String.ofList (expand (valueSoFar outside known) value)))
    .empty

end PlanAudit.Settings
