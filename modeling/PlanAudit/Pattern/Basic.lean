import PlanAudit.Text.Basic

/-!
# Text patterns

Every reader of source text in this library is a pattern: a small expression that consumes
characters, tries its alternatives in a fixed order and records what it captured.  The order
matters, because the first way to match is the one that counts: a greedy loop tries one more round
before it stops, a lazy one stops before it tries one more round.

## Main definitions

* `Pattern`: the expressions
* `Cursor`: a position in a text together with the captures made so far
* `Pattern.outcomes`: every way to match, best first
* `Pattern.run`: the first way to match that a continuation accepts

## Main results

* `Pattern.run_eq_findSome?`: running a pattern with a continuation searches `Pattern.outcomes`
-/

namespace PlanAudit

/-- An expression that matches pieces of text. -/
inductive Pattern where
  /-- Matches the empty text. -/
  | empty
  /-- Matches one character that is accepted. -/
  | one (accepts : Char → Bool)
  /-- Matches what `first` matches followed by what `second` matches. -/
  | seq (first second : Pattern)
  /-- Matches what `first` matches, or else what `second` matches. -/
  | alt (first second : Pattern)
  /-- Matches `body` at least `least` times and, where `most` is given, at most that often. -/
  | loop (greedy : Bool) (least : Nat) (most : Option Nat) (body : Pattern)
  /-- Matches `body` and records what it matched under `index`. -/
  | capture (index : Nat) (body : Pattern)
  /-- Matches the empty text where the character before and the text after are as required. -/
  | here (holds : Option Char → List Char → Bool)

/-- A piece of text that a pattern recorded: the text from its start on, and both ends. -/
structure Capture where
  /-- The number under which the piece was recorded. -/
  index : Nat
  /-- The position of the first character. -/
  start : Nat
  /-- The position after the last character. -/
  stop : Nat
  /-- The text from `start` on. -/
  tail : List Char

/-- The characters that were captured. -/
def Capture.text (c : Capture) : List Char := c.tail.take (c.stop - c.start)

/-- A position in a text during a match. -/
structure Cursor where
  /-- The character before the position. -/
  before : Option Char
  /-- The number of characters before the position. -/
  offset : Nat
  /-- The text after the position. -/
  rest : List Char
  /-- The captures made so far, the latest first. -/
  captures : List Capture

namespace Cursor

/-- The cursor after the character `x`, which is followed by `xs`. -/
def advance (c : Cursor) (x : Char) (xs : List Char) : Cursor :=
  { c with before := some x, offset := c.offset + 1, rest := xs }

/-- The cursor with the text since `start` recorded under `index`. -/
def record (c : Cursor) (index : Nat) (start : Cursor) : Cursor :=
  { c with captures := ⟨index, start.offset, c.offset, start.rest⟩ :: c.captures }

end Cursor

namespace Pattern

instance : Append Pattern := ⟨.seq⟩

instance : OrOp Pattern := ⟨.alt⟩

/-! ## Every way to match -/

/-- The ways to repeat `body`, best first.  A round beyond the required ones has to consume
something; `fuel` bounds the number of rounds. -/
def loopOutcomes (body : Cursor → List Cursor) (greedy : Bool) :
    Nat → Nat → Option Nat → Cursor → List Cursor
  | 0, least, _, c => if least = 0 then [c] else []
  | fuel + 1, least + 1, most, c =>
    (body c).flatMap fun c' => loopOutcomes body greedy fuel least (most.map (· - 1)) c'
  | fuel + 1, 0, most, c =>
    let again :=
      if most = some 0 then []
      else (body c).flatMap fun c' =>
        if c'.offset = c.offset then [] else loopOutcomes body greedy fuel 0 (most.map (· - 1)) c'
    if greedy then again ++ [c] else c :: again

/-- The cursors at which a match that starts at `c` can end, best first. -/
def outcomes : Pattern → Cursor → List Cursor
  | empty, c => [c]
  | one accepts, c =>
    match c.rest with
    | x :: xs => if accepts x then [c.advance x xs] else []
    | [] => []
  | seq first second, c => (outcomes first c).flatMap (outcomes second)
  | alt first second, c => outcomes first c ++ outcomes second c
  | loop greedy least most body, c =>
    loopOutcomes (outcomes body) greedy (least + c.rest.length + 1) least most c
  | capture index body, c => (outcomes body c).map (·.record index c)
  | here holds, c => if holds c.before c.rest then [c] else []

/-! ## The first way to match -/

/-- The first result of `next` over the ways to repeat `body`. -/
def runLoop {α : Type} (body : Cursor → (Cursor → Option α) → Option α) (greedy : Bool)
    (next : Cursor → Option α) : Nat → Nat → Option Nat → Cursor → Option α
  | 0, least, _, c => if least = 0 then next c else none
  | fuel + 1, least + 1, most, c =>
    body c fun c' => runLoop body greedy next fuel least (most.map (· - 1)) c'
  | fuel + 1, 0, most, c =>
    let again : Unit → Option α := fun _ =>
      if most = some 0 then none
      else body c fun c' =>
        if c'.offset = c.offset then none
        else runLoop body greedy next fuel 0 (most.map (· - 1)) c'
    if greedy then
      match again () with
      | some a => some a
      | none => next c
    else
      match next c with
      | some a => some a
      | none => again ()

/-- The first result of `next` over the ways to match the pattern from `c` on. -/
def run {α : Type} : Pattern → Cursor → (Cursor → Option α) → Option α
  | empty, c, next => next c
  | one accepts, c, next =>
    match c.rest with
    | x :: xs => if accepts x then next (c.advance x xs) else none
    | [] => none
  | seq first second, c, next => run first c fun c' => run second c' next
  | alt first second, c, next =>
    match run first c next with
    | some a => some a
    | none => run second c next
  | loop greedy least most body, c, next =>
    runLoop (run body) greedy next (least + c.rest.length + 1) least most c
  | capture index body, c, next => run body c fun c' => next (c'.record index c)
  | here holds, c, next => if holds c.before c.rest then next c else none

/-! ## Running is searching -/

/-- Searching the concatenated images of a list is a search in a search. -/
theorem findSome?_flatMap {α β γ : Type} (xs : List α) (f : α → List β) (g : β → Option γ) :
    (xs.flatMap f).findSome? g = xs.findSome? fun x => (f x).findSome? g := by
  induction xs with
  | nil => rfl
  | cons x xs ih =>
    simp only [List.flatMap_cons, List.findSome?_append, List.findSome?_cons, ih]
    cases (f x).findSome? g <;> rfl

theorem runLoop_eq_findSome? {α : Type} {body : Cursor → (Cursor → Option α) → Option α}
    {ways : Cursor → List Cursor} (h : ∀ c next, body c next = (ways c).findSome? next)
    (greedy : Bool) (next : Cursor → Option α) (fuel least : Nat) (most : Option Nat)
    (c : Cursor) :
    runLoop body greedy next fuel least most c =
      (loopOutcomes ways greedy fuel least most c).findSome? next := by
  induction fuel generalizing least most c with
  | zero => by_cases hl : least = 0 <;> simp [runLoop, loopOutcomes, hl]
  | succ fuel ih =>
    cases least with
    | succ least => simp only [runLoop, loopOutcomes, h, ih, findSome?_flatMap]
    | zero =>
      have again : ∀ xs : List Cursor,
          (xs.findSome? fun c' => if c'.offset = c.offset then none
            else (loopOutcomes ways greedy fuel 0 (most.map (· - 1)) c').findSome? next) =
          (xs.flatMap fun c' => if c'.offset = c.offset then []
            else loopOutcomes ways greedy fuel 0 (most.map (· - 1)) c').findSome? next := by
        intro xs
        rw [findSome?_flatMap]
        congr 1
        funext c'
        split <;> rfl
      simp only [runLoop, loopOutcomes, h, ih]
      by_cases hm : most = some 0
      · cases greedy <;> cases hn : next c <;> simp [hm, hn]
      · simp only [hm, if_false, again]
        cases greedy
        · simp only [Bool.false_eq_true, if_false, List.findSome?_cons]
          cases next c <;> rfl
        · simp only [if_true, List.findSome?_append, List.findSome?_cons, List.findSome?_nil]
          cases List.findSome? next _ <;> cases next c <;> rfl

/-- Running a pattern finds the best outcome that the continuation accepts. -/
theorem run_eq_findSome? {α : Type} (p : Pattern) (c : Cursor) (next : Cursor → Option α) :
    p.run c next = (p.outcomes c).findSome? next := by
  induction p generalizing c next with
  | empty => simp [run, outcomes]
  | one accepts =>
    simp only [run, outcomes]
    cases c.rest with
    | nil => rfl
    | cons x xs => by_cases hx : accepts x <;> simp [hx]
  | seq first second ih₁ ih₂ => simp only [run, outcomes, ih₁, ih₂, findSome?_flatMap]
  | alt first second ih₁ ih₂ =>
    simp only [run, outcomes, ih₁, ih₂, List.findSome?_append]
    cases List.findSome? next (first.outcomes c) <;> rfl
  | loop greedy least most body ih =>
    exact runLoop_eq_findSome? ih greedy next _ least most c
  | capture index body ih =>
    simp only [run, outcomes, ih, List.findSome?_map]
    rfl
  | here holds => by_cases hh : holds c.before c.rest <;> simp [run, outcomes, hh]

end Pattern

end PlanAudit
