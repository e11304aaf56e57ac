import PlanAudit.Pattern.Basic

/-!
# Searching with patterns

A search tries a pattern at each position of a text from left to right.  Successive matches do not
overlap: the next one is looked for where the last one ended.

## Main definitions

* `Match`: where a pattern matched and what it captured
* `Pattern.matchAt`: the match at one position
* `Pattern.search`, `Pattern.searchFrom`: the leftmost match
* `Pattern.findAll`: all matches from left to right
* `Pattern.replaceAll`: the text with each match replaced
-/

namespace PlanAudit

/-- A successful match. -/
structure Match where
  /-- The position of the first character. -/
  start : Nat
  /-- The position after the last character. -/
  stop : Nat
  /-- The text from `start` on. -/
  tail : List Char
  /-- The captures, the latest first. -/
  captures : List Capture

namespace Match

/-- The characters that matched. -/
def text (m : Match) : List Char := m.tail.take (m.stop - m.start)

/-- What was last captured under `index`. -/
def capture? (m : Match) (index : Nat) : Option Capture :=
  m.captures.find? (·.index == index)

/-- The characters captured under `index`; none if nothing was. -/
def group (m : Match) (index : Nat) : List Char :=
  match m.capture? index with
  | some c => c.text
  | none => []

/-- The characters captured under `index` as a string. -/
def name (m : Match) (index : Nat) : String := String.ofList (m.group index)

/-- The characters that matched as a string. -/
def string (m : Match) : String := String.ofList m.text

/-- The position at which the capture under `index` starts. -/
def groupStart (m : Match) (index : Nat) : Nat :=
  match m.capture? index with
  | some c => c.start
  | none => m.start

end Match

namespace Pattern

/-- The match at the position between `before` and `rest`, if there is one. -/
def matchHere (p : Pattern) (before : Option Char) (offset : Nat) (rest : List Char) :
    Option Match :=
  p.run ⟨before, offset, rest, []⟩ fun c => some ⟨offset, c.offset, rest, c.captures⟩

/-- The match at the start of the text. -/
def matchStart (p : Pattern) (text : List Char) : Option Match := p.matchHere none 0 text

/-- Whether the pattern matches at the start of the text. -/
def matchesStart (p : Pattern) (text : List Char) : Bool := (p.matchStart text).isSome

/-- The leftmost match in `rest`, not counting the first `skip` positions. -/
def searchScan (p : Pattern) : Nat → Option Char → Nat → List Char → Option Match
  | 0, before, offset, [] => p.matchHere before offset []
  | _ + 1, _, _, [] => none
  | skip + 1, _, offset, c :: rest => searchScan p skip (some c) (offset + 1) rest
  | 0, before, offset, c :: rest =>
    match p.matchHere before offset (c :: rest) with
    | some m => some m
    | none => searchScan p 0 (some c) (offset + 1) rest

/-- The leftmost match that starts at `position` or later. -/
def searchFrom (p : Pattern) (text : List Char) (position : Nat) : Option Match :=
  searchScan p position none 0 text

/-- The leftmost match. -/
def search (p : Pattern) (text : List Char) : Option Match := p.searchFrom text 0

/-- Whether the pattern matches anywhere in the text. -/
def occursIn (p : Pattern) (text : List Char) : Bool := (p.search text).isSome

/-- The matches in `rest` from left to right, the first `skip` positions left out.  After a match
the positions inside it are left out, and always at least one. -/
def findScan (p : Pattern) : Nat → Option Char → Nat → List Char → List Match
  | 0, before, offset, [] => (p.matchHere before offset []).toList
  | _ + 1, _, _, [] => []
  | skip + 1, _, offset, c :: rest => findScan p skip (some c) (offset + 1) rest
  | 0, before, offset, c :: rest =>
    match p.matchHere before offset (c :: rest) with
    | some m => m :: findScan p (m.stop - offset - 1) (some c) (offset + 1) rest
    | none => findScan p 0 (some c) (offset + 1) rest

/-- All matches from left to right. -/
def findAll (p : Pattern) (text : List Char) : List Match := findScan p 0 none 0 text

/-- The text from `position` on with each of the matches replaced by `piece`. -/
def replaceMatches (piece : List Char) (position : Nat) : List Match → List Char → List Char
  | [], text => text
  | m :: ms, text =>
    text.take (m.start - position) ++ piece ++
      replaceMatches piece m.stop ms (text.drop (m.stop - position))

/-- The text with each match replaced by `piece`. -/
def replaceAll (p : Pattern) (piece text : List Char) : List Char :=
  replaceMatches piece 0 (p.findAll text) text

end Pattern

end PlanAudit
