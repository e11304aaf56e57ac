import PlanAudit.Proofs.Pattern.Running
import PlanAudit.Proofs.Text.Segments

/-!
# Searching line by line

A pattern that matches only at the start of a line is looked for line by line: a line at whose start
it does not match is passed over as a whole, and behind a match the search goes on with the next
line.

## Main definitions

* `linesAfter`: the lines behind another one, each behind the line feed that ends the one before
* `Pattern.StartsLine before`: a line starts behind `before`
* `Pattern.AtLineStart`: a pattern that matches only at the start of a line
* `Pattern.findInLines`: the matches in a text that is given as lines

## Main results

* `findInLines_cons_of_none`: a line without a match is passed over
* `findScan_of_match`: behind a match the search goes on with the next line
-/

namespace PlanAudit

/-! ## Lines of a text -/

/-- The lines behind another one, each behind the line feed that ends the one before. -/
def linesAfter (lines : List (List Char)) : List Char := lines.flatMap ('\n' :: ·)

@[simp] theorem linesAfter_nil : linesAfter [] = [] := rfl

@[simp] theorem linesAfter_cons (line : List Char) (lines : List (List Char)) :
    linesAfter (line :: lines) = '\n' :: (line ++ linesAfter lines) := rfl

@[simp] theorem linesAfter_append (first second : List (List Char)) :
    linesAfter (first ++ second) = linesAfter first ++ linesAfter second := List.flatMap_append

theorem intercalate_lineFeed (line : List Char) (lines : List (List Char)) :
    ['\n'].intercalate (line :: lines) = line ++ linesAfter lines :=
  Text.intercalate_cons_eq '\n' line lines

namespace Pattern

/-! ## Positions that a search leaves out -/

theorem findScan_length (p : Pattern) (w rest : List Char) (before : Option Char) (offset : Nat) :
    p.findScan w.length before offset (w ++ rest) =
      p.findScan 0 (w.getLast?.or before) (offset + w.length) rest := by
  induction w generalizing before offset with
  | nil => rfl
  | cons x w ih =>
    rw [List.length_cons, List.cons_append, findScan, ih, Nat.add_assoc, Nat.add_comm 1]
    simp [List.getLast?_cons, Option.or_some]

/-- Behind a match the search goes on where the match ended. -/
theorem findScan_append_of_matchHere {p : Pattern} {w t : List Char} (hne : w ≠ [])
    {before : Option Char} {offset : Nat} {m : Match}
    (hm : p.matchHere before offset (w ++ t) = some m) (hstop : m.stop = offset + w.length) :
    p.findScan 0 before offset (w ++ t) =
      m :: p.findScan 0 (w.getLast?.or before) (offset + w.length) t := by
  obtain ⟨x, w, rfl⟩ := List.exists_cons_of_ne_nil hne
  have hskip : m.stop - offset - 1 = w.length := by
    rw [hstop, List.length_cons]
    omega
  rw [List.cons_append] at *
  rw [findScan, hm]
  dsimp only
  rw [hskip, findScan_length, List.length_cons, Nat.add_assoc, Nat.add_comm 1]
  simp [List.getLast?_cons, Option.or_some]

/-! ## Patterns at the start of a line -/

/-- Whether something that stands behind `before` stands at the start of a line. -/
def StartsLine (before : Option Char) : Prop := before = none ∨ before = some '\n'

theorem startsLine_iff {before : Option Char} :
    (before.isNone || before == some '\n') = true ↔ StartsLine before := by
  cases before <;> simp [StartsLine]

/-- The pattern matches only at the start of the text or behind a line feed. -/
def AtLineStart (p : Pattern) : Prop :=
  ∀ (before : Option Char) (offset : Nat) (rest : List Char),
    (p.matchHere before offset rest).isSome → before = none ∨ before = some '\n'

section LineStart

variable {p : Pattern}

theorem AtLineStart.matchHere_eq_none (hp : p.AtLineStart) {x : Char} (hx : x ≠ '\n')
    (offset : Nat) (rest : List Char) : p.matchHere (some x) offset rest = none := by
  by_contra h
  rcases hp _ offset rest (Option.isSome_iff_ne_none.mpr h) with h | h
  · cases h
  · exact hx (Option.some.inj h)

/-- The matches in a text that is given as lines, the first of which stands behind `before`. -/
def findInLines (p : Pattern) (before : Option Char) (offset : Nat) :
    List (List Char) → List Match
  | [] => []
  | line :: lines => p.findScan 0 before offset (line ++ linesAfter lines)

/-- In the rest of a line nothing is found. -/
theorem findScan_append_linesAfter (hp : p.AtLineStart) {line : List Char} (hline : '\n' ∉ line)
    {before : Option Char} {offset : Nat} {lines : List (List Char)}
    (hnone : p.matchHere before offset (line ++ linesAfter lines) = none) :
    p.findScan 0 before offset (line ++ linesAfter lines) =
      p.findInLines (some '\n') (offset + line.length + 1) lines := by
  induction line generalizing before offset with
  | nil =>
    cases lines with
    | nil =>
      rw [List.nil_append, linesAfter_nil] at *
      rw [findScan, hnone]
      rfl
    | cons next lines =>
      rw [List.nil_append, linesAfter_cons] at *
      rw [findScan, hnone]
      rfl
  | cons x line ih =>
    obtain ⟨hx, hline⟩ := not_or.mp (mt List.mem_cons.mpr hline)
    rw [List.cons_append] at *
    rw [findScan, hnone]
    refine (ih hline (hp.matchHere_eq_none (Ne.symm hx) _ _)).trans ?_
    rw [List.length_cons, Nat.add_right_comm offset 1, Nat.add_assoc offset]

/-- **A line without a match is passed over.** -/
theorem findInLines_cons_of_none (hp : p.AtLineStart) {line : List Char} (hline : '\n' ∉ line)
    {before : Option Char} {offset : Nat} {lines : List (List Char)}
    (hnone : p.matchHere before offset (line ++ linesAfter lines) = none) :
    p.findInLines before offset (line :: lines) =
      p.findInLines (some '\n') (offset + line.length + 1) lines :=
  findScan_append_linesAfter hp hline hnone

/-- **Behind a match the search goes on with the next line**: the match takes `taken`, and `tail` is
what its last line has besides. -/
theorem findScan_of_match (hp : p.AtLineStart) {before : Option Char} {offset : Nat}
    {taken tail : List Char} {lines : List (List Char)} {m : Match}
    (hm : p.matchHere before offset (taken ++ (tail ++ linesAfter lines)) = some m)
    (hstop : m.stop = offset + taken.length) {x : Char} (hx : taken.getLast? = some x)
    (hfeed : x ≠ '\n') (htail : '\n' ∉ tail) :
    p.findScan 0 before offset (taken ++ (tail ++ linesAfter lines)) =
      m :: p.findInLines (some '\n') (offset + taken.length + tail.length + 1) lines := by
  rw [findScan_append_of_matchHere (List.ne_nil_of_mem (List.mem_of_getLast? hx)) hm hstop, hx,
    Option.some_or, findScan_append_linesAfter hp htail (hp.matchHere_eq_none hfeed _ _)]

end LineStart

end Pattern

end PlanAudit
