import PlanAudit.Fault
import PlanAudit.Files.System
import PlanAudit.Pattern.Build

/-!
# Ignore files

Each line of an ignore file holds a pattern for paths; the last line whose pattern matches a path
decides whether it is ignored.  Directories are tested with a slash at their end.

## Main definitions

* `IgnoreToken`: what a segment of a pattern is made of
* `IgnoreRule`, `IgnoreRule.ofLine?`: a line of the file
* `ignores`: whether a path is ignored
* `FileSystem.ignoreRules`: the rules of a directory
-/

namespace PlanAudit

open Text Pattern

/-! ## Segments -/

/-- The characters from one to another; a single one where both are the same. -/
structure CharRange where
  /-- The first character. -/
  first : Char
  /-- The last character. -/
  last : Char
  deriving DecidableEq, Repr

/-- Whether the character lies in the range. -/
def CharRange.contains (r : CharRange) (c : Char) : Bool := r.first ≤ c && c ≤ r.last

/-- What a segment of a pattern is made of. -/
inductive IgnoreToken where
  /-- Any characters but slashes, written as an asterisk. -/
  | anyText
  /-- Any character but a slash, written as a question mark. -/
  | anyChar
  /-- The character itself. -/
  | literal (c : Char)
  /-- A character inside the ranges, or outside them. -/
  | oneOf (negated : Bool) (ranges : List CharRange)
  deriving DecidableEq, Repr

/-- What a token matches. -/
def IgnoreToken.pattern : IgnoreToken → Pattern
  | anyText => star (one (· != '/'))
  | anyChar => one (· != '/')
  | literal c => char c
  | oneOf negated ranges => one fun c => ranges.any (·.contains c) != negated

/-- The ranges written between brackets. -/
def rangesOf : List Char → List CharRange
  | a :: '-' :: b :: rest => ⟨a, b⟩ :: rangesOf rest
  | a :: rest => ⟨a, a⟩ :: rangesOf rest
  | [] => []

/-- What stands between brackets, after the opening one, and the text after the closing one; a
closing bracket that comes first is meant as a character. -/
def bracketBody? : List Char → Option (List Char × List Char)
  | [] => none
  | c :: rest =>
    let more := rest.takeWhile (· != ']')
    match rest.drop more.length with
    | [] => none
    | _ :: after => some (c :: more, after)

/-- The outcome of reading a segment. -/
inductive SegmentReading where
  /-- The tokens of the segment. -/
  | tokens (tokens : List IgnoreToken)
  /-- A bracket is not closed, which makes the whole line void. -/
  | unclosed
  /-- A backslash with nothing after it. -/
  | loneBackslash
  deriving DecidableEq, Repr

/-- The reading with a token put before it. -/
def SegmentReading.cons (t : IgnoreToken) : SegmentReading → SegmentReading
  | tokens ts => tokens (t :: ts)
  | other => other

/-- The reading of a segment, of which at most `fuel` tokens are read. -/
def readSegment : Nat → List Char → SegmentReading
  | _, [] => .tokens []
  | 0, _ => .tokens []
  | _ + 1, ['\\'] => .loneBackslash
  | fuel + 1, '\\' :: c :: rest => (readSegment fuel rest).cons (.literal c)
  | fuel + 1, '*' :: rest => (readSegment fuel rest).cons .anyText
  | fuel + 1, '?' :: rest => (readSegment fuel rest).cons .anyChar
  | fuel + 1, '[' :: rest =>
    let negated := rest.head? == some '!' || rest.head? == some '^'
    match bracketBody? (if negated then rest.drop 1 else rest) with
    | some (body, after) => (readSegment fuel after).cons (.oneOf negated (rangesOf body))
    | none => .unclosed
  | fuel + 1, c :: rest => (readSegment fuel rest).cons (.literal c)

/-- The ranges of a token. -/
def IgnoreToken.ranges : IgnoreToken → List CharRange
  | oneOf _ ranges => ranges
  | _ => []

/-! ## Lines -/

/-- The segments of a pattern after the rules for slashes at its ends: a pattern that is not tied
to the directory of the file starts with two asterisks, one for directories ends in them. -/
def patternSegments (written : List String) : List String :=
  let tied :=
    match written with
    | "" :: rest => rest
    | [s] => if s = "**" then [s] else ["**", s]
    | [s, ""] => if s = "**" then [s, ""] else ["**", s, ""]
    | other => other
  match tied.reverse with
  | "" :: before => ("**" :: before).reverse
  | _ => tied

/-- The segments with runs of double asterisks cut down to one. -/
def mergeDepths : List String → List String
  | "**" :: "**" :: rest => mergeDepths ("**" :: rest)
  | s :: rest => s :: mergeDepths rest
  | [] => []

/-- The end of a path, or a slash. -/
def pathBreak : Pattern := char '/' ||| textEnd

/-- The outcome of reading the segments of a line. -/
inductive LineReading where
  /-- The pattern of the line and the ranges that stand in it. -/
  | pattern (pattern : Pattern) (ranges : List CharRange)
  /-- The line is void. -/
  | void
  /-- The line is no pattern. -/
  | malformed

/-- The reading of the segments after others.  A segment is set off by a slash if `needSlash` is
set; `first` tells that none came before. -/
def readSegments (first needSlash : Bool) : List String → LineReading
  | [] => .pattern .empty []
  | segment :: rest =>
    if segment = "**" then
      if first then
        match readSegments false false rest with
        | .pattern p ranges =>
          .pattern (textStart ++ opt (plus (one (· != '\n')) ++ char '/') ++ p) ranges
        | other => other
      else if rest.isEmpty then .pattern (char '/') []
      else
        match readSegments false true rest with
        | .pattern p ranges =>
          .pattern (opt (char '/' ++ plus (one (· != '\n'))) ++ p) ranges
        | other => other
    else
      let start := if first then textStart else .empty
      let slash := if needSlash then char '/' else .empty
      let stop := if rest.isEmpty then pathBreak else .empty
      if segment = "*" then
        match readSegments false true rest with
        | .pattern p ranges =>
          .pattern (start ++ slash ++ plus (one (· != '/')) ++ stop ++ p) ranges
        | other => other
      else
        match readSegment (segment.length + 1) segment.toList with
        | .unclosed => .void
        | .loneBackslash => .malformed
        | .tokens tokens =>
          match readSegments false true rest with
          | .pattern p ranges =>
            .pattern (start ++ slash ++ chain (tokens.map IgnoreToken.pattern) ++ stop ++ p)
              (tokens.flatMap IgnoreToken.ranges ++ ranges)
          | other => other

/-- The reading of the segments of a line. -/
def readPattern (segments : List String) (forDirectory : Bool) : LineReading :=
  match segments with
  | [] => .malformed
  | ["**"] => .pattern (if forDirectory then char '/' else one (· != '\n')) []
  | ["**", "*"] => .pattern (one (· != '\n')) []
  | ["**", "*", "**"] => .pattern (char '/') []
  | _ => readSegments true false segments

/-- A line of an ignore file. -/
structure IgnoreRule where
  /-- Whether a path that matches is ignored, or taken back. -/
  ignored : Bool
  /-- The pattern, which may match anywhere in the path. -/
  pattern : Pattern

/-- The line without white space at its end, which a backslash before a last blank protects. -/
def trimmedLine (line : List Char) : List Char :=
  if endsWith ['\\', ' '] line then line else stripEnd line

/-- The rule of a line, if it states one. -/
def IgnoreRule.ofLine? (line : List Char) : Except Fault (Option IgnoreRule) :=
  let trimmed := trimmedLine line
  if trimmed.isEmpty || trimmed.head? == some '#' || trimmed == ['/'] then .ok none
  else
    let negated := trimmed.head? == some '!'
    let written := segments (String.ofList (if negated then trimmed.drop 1 else trimmed))
    let forDirectory := written.getLast? == some ""
    match readPattern (mergeDepths (patternSegments written)) forDirectory with
    | .void => .ok none
    | .malformed => .error (.ignoreLine (String.ofList line))
    | .pattern pattern ranges =>
      if ranges.any fun r => r.last < r.first then .error .emptyRange
      else .ok (some ⟨!negated, pattern⟩)

/-- The lines of a text, each with the line feed that ends it. -/
def linesWithEnds (text : List Char) : List (List Char) :=
  match (text.splitOn '\n').reverse with
  | [] => []
  | last :: ended =>
    (ended.reverse.map (· ++ ['\n'])) ++ if last.isEmpty then [] else [last]

/-- The rules that a text states; the first line that states none and is not void is a fault. -/
def ignoreRulesOf (text : List Char) : Except Fault (List IgnoreRule) :=
  ((linesWithEnds text).mapM IgnoreRule.ofLine?).map fun rules => rules.filterMap id

/-- Whether the rules ignore a path: the last one that matches decides. -/
def ignores (rules : List IgnoreRule) (path : String) : Bool :=
  match rules.reverse.find? fun r => r.pattern.occursIn path.toList with
  | some r => r.ignored
  | none => false

/-- The rules in the ignore file of a directory; there are none if it has no such file. -/
def FileSystem.ignoreRules (fs : FileSystem) (directory : Path) :
    Except Fault (List IgnoreRule) :=
  match fs.content? (directory.join ".gitignore") with
  | none => .ok []
  | some content =>
    match content.read? with
    | some text => ignoreRulesOf text
    | none => .error .undecodable

end PlanAudit
