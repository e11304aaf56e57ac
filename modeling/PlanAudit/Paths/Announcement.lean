import PlanAudit.Pattern.Build

/-!
# Files that a plan announces

A path that is not in the project is not an error if the plan says that it will create the file,
or if the caller allows new files of that shape.

## Main definitions

* `announcementPatterns`: the phrases that announce a file
* `newFileSections`: the text under the headings that list new files
* `hasCreateSignal`: whether the plan announces a path
* `Glob`: the tokens of a pattern for new files
* `matchesAllowedNew`: whether a path has one of the allowed shapes
-/

namespace PlanAudit.Paths

open PlanAudit.Text Pattern

/-! ## Phrases -/

/-- The words for creating a file. -/
def createVerb : Pattern := oneOfTextsAnyCase ["create", "add", "new file", "introduce"]

/-- Characters up to the end of the line, as many as possible. -/
def restOfLine : Pattern := star (one (· != '\n'))

/-- The phrases that announce the file `path`. -/
def announcementPatterns (path : String) : List Pattern :=
  let file := litAnyCase path
  [createVerb ++ blanks1 ++ opt (char '\x60') ++ file,
    file ++ restOfLine ++ char '(' ++ blanks ++ oneOfTextsAnyCase ["create", "new", "add"],
    char '(' ++ blanks ++ oneOfTextsAnyCase ["create", "new"] ++ restOfLine ++ file,
    file ++ loop true 0 (some 20) (one fun c => c != ')' && c != '\n') ++ char '(' ++
      oneOfTextsAnyCase ["new", "create"] ++ char ')']

/-! ## Headings -/

/-- The titles of lists of new files. -/
def newFilesTitle : Pattern :=
  oneOfTextsAnyCase ["new", "files to create", "files to add", "created files"]

/-- One to four number signs at the start of a line. -/
def headingMarks : Pattern := lineStart ++ loop true 1 (some 4) (char '#')

/-- The headings of lists of new files: as a heading of the document, and in bold. -/
def newFilesHeadings : List Pattern :=
  [headingMarks ++ blanks ++ newFilesTitle, lit "**" ++ newFilesTitle ++ lit "**"]

/-- Any heading of the document. -/
def heading : Pattern := headingMarks ++ one isBlank

/-- The position of the first line feed at `position` or later, or the length of the text. -/
def lineEndFrom (text : List Char) (position : Nat) : Nat :=
  position + ((text.drop position).takeWhile (· != '\n')).length

/-- The text from the match of a title up to the next heading. -/
def sectionFrom (plan : List Char) (title : Match) : List Char :=
  match heading.searchFrom plan (lineEndFrom plan title.stop) with
  | some next => slice plan title.start next.start
  | none => plan.drop title.start

/-- The text under the first heading of either form that lists new files. -/
def newFileSections (plan : List Char) : List (List Char) :=
  newFilesHeadings.filterMap fun h => (h.search plan).map (sectionFrom plan)

/-- Whether the plan announces the file. -/
def hasCreateSignal (path : String) (plan : List Char) : Bool :=
  (announcementPatterns path).any (·.occursIn plan) ||
    (newFileSections plan).any (contains path.toList)

/-! ## Allowed shapes -/

/-- A token of a pattern for new files. -/
inductive Glob where
  /-- Any text on one line, written as two asterisks. -/
  | anyDepth
  /-- Any text without a slash, written as one asterisk. -/
  | anySegment
  /-- The character itself. -/
  | literal (c : Char)
  deriving DecidableEq, Repr

/-- The tokens of a written pattern, from left to right. -/
def Glob.ofChars : List Char → List Glob
  | '*' :: '*' :: rest => .anyDepth :: ofChars rest
  | '*' :: rest => .anySegment :: ofChars rest
  | c :: rest => .literal c :: ofChars rest
  | [] => []

/-- What a token matches. -/
def Glob.pattern : Glob → Pattern
  | .anyDepth => star (one (· != '\n'))
  | .anySegment => star (one (· != '/'))
  | .literal c => char c

/-- The pattern that matches the paths of the written shape. -/
def globPattern (shape : String) : Pattern :=
  chain ((Glob.ofChars shape.toList).map Glob.pattern ++ [textEnd])

/-- Whether the path has one of the shapes. -/
def matchesAllowedNew (path : String) (shapes : List String) : Bool :=
  shapes.any fun shape => (globPattern shape).matchesStart path.toList

end PlanAudit.Paths
