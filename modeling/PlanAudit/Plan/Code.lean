import PlanAudit.Pattern.Build
import PlanAudit.Text.Brackets

/-!
# Code in a plan

A plan is a text in which code stands in fenced blocks and in spans between grave accents.

## Main definitions

* `codeRegions`: the fenced blocks, then the spans, one below the other
* `codeBlocks`: the bodies of the fenced blocks
* `lineAt`: the line around a position
* `lookbackWindow`: the text shortly before a position, up to the last blank line
-/

namespace PlanAudit.Plan

open PlanAudit.Text Pattern

/-! ## Fences and spans -/

/-- Three grave accents. -/
def fence : Pattern := lit "\x60\x60\x60"

/-- A fenced block with its fences. -/
def fencedBlock : Pattern := fence ++ starLazy anything ++ fence

/-- A fenced block whose body, after an optional language tag, is captured. -/
def fencedBody : Pattern :=
  fence ++ opt (star word ++ char '\n') ++ capture 1 (starLazy anything) ++ fence

/-- A span of code between two grave accents. -/
def inlineCode : Pattern := char '\x60' ++ capture 1 (plus (noneOf "\x60")) ++ char '\x60'

/-- The fenced blocks with their fences and then the spans of code, joined by line feeds.  Spans
are looked for in the whole plan, so that a fenced block may contribute twice. -/
def codeRegions (plan : List Char) : List Char :=
  List.intercalate ['\n']
    ((fencedBlock.findAll plan).map Match.text ++ (inlineCode.findAll plan).map (Match.group · 1))

/-- The bodies of the fenced blocks, without their language tags. -/
def codeBlocks (plan : List Char) : List (List Char) :=
  (fencedBody.findAll plan).map (Match.group · 1)

/-- The bodies of the fenced blocks, one below the other. -/
def joinedBlocks (plan : List Char) : List Char := List.intercalate ['\n'] (codeBlocks plan)

/-! ## Around a position -/

/-- The text after the last occurrence of `piece`, or the whole text if there is none. -/
def afterLast (piece text : List Char) : List Char :=
  match findLast? piece text with
  | some n => text.drop (n + piece.length)
  | none => text

/-- The line around the position `offset`, without its line feed. -/
def lineAt (text : List Char) (offset : Nat) : List Char :=
  afterLast ['\n'] (text.take offset) ++ (text.drop offset).takeWhile (· != '\n')

/-- The last `size` characters before `offset`, cut after the last blank line among them. -/
def lookbackWindow (text : List Char) (offset size : Nat) : List Char :=
  afterLast ['\n', '\n'] (slice text (offset - size) offset)

end PlanAudit.Plan
