import Mathlib.Data.List.DropRight
import Mathlib.Data.List.Infix
import PlanAudit.Plan.Code
import PlanAudit.Proofs.Text.Words

/-!
# The line around a position

The line around a position consists of the last line of the text in front of it and the first line
of the text behind it.

## Main definitions

* `lastLine`: the last line of a text

## Main results

* `afterLast_cases`, `afterLast_char`: the text after the last occurrence of a piece
* `lineAt_append`: the line around the place where two texts meet
-/

namespace PlanAudit.Plan

open Text

variable {v : List Char}

/-! ## Behind the last occurrence of a character -/

section Last

variable {x : Char}

/-- What stands behind the last occurrence of a character in the second of two texts. -/
theorem rtakeWhile_append_cons (x : Char) (u v : List Char) :
    (u ++ x :: v).rtakeWhile (· != x) = v.rtakeWhile (· != x) := by
  induction v using List.reverseRecOn with
  | nil => simp [List.rtakeWhile]
  | append_singleton v y ih =>
    rw [← List.cons_append, ← List.append_assoc, List.rtakeWhile_concat, List.rtakeWhile_concat, ih]

/-- A text without the character stands behind its last occurrence. -/
theorem rtakeWhile_append (u : List Char) (hv : x ∉ v) :
    (u ++ v).rtakeWhile (· != x) = u.rtakeWhile (· != x) ++ v := by
  induction v using List.reverseRecOn with
  | nil => simp
  | append_singleton v y ih =>
    rw [List.mem_append, not_or, List.mem_singleton] at hv
    have hy : (y != x) = true := bne_iff_ne.mpr fun heq => hv.2 heq.symm
    rw [← List.append_assoc, List.rtakeWhile_concat, if_pos hy, ih hv.1, List.append_assoc]

theorem rtakeWhile_eq_self (hv : x ∉ v) : v.rtakeWhile (· != x) = v :=
  rtakeWhile_append [] hv

/-- The position of the last occurrence of a piece. -/
theorem findLast?_cases {piece : List Char} (hne : piece ≠ []) (text : List Char) :
    (findLast? piece text = none ∧ ¬ piece <:+: text) ∨
      ∃ u v, text = u ++ (piece ++ v) ∧ ¬ piece <:+: v ∧
        findLast? piece text = some u.length := by
  induction text with
  | nil =>
    refine Or.inl ⟨?_, fun h => hne (List.infix_nil.mp h)⟩
    exact if_neg (by simpa using hne)
  | cons c rest ih =>
    rcases ih with ⟨hnone, hfree⟩ | ⟨u, v, rfl, hv, hsome⟩
    · by_cases hbegins : piece <+: c :: rest
      · obtain ⟨v, hv⟩ := hbegins
        refine Or.inr ⟨[], v, hv.symm, fun hlater => hfree (hlater.trans ?_), ?_⟩
        · obtain ⟨x, piece, rfl⟩ := List.exists_cons_of_ne_nil hne
          exact (List.cons.inj hv).2 ▸ (List.suffix_append piece v).isInfix
        · simp [findLast?, hnone, beginsWith, ← hv]
      · refine Or.inl ⟨?_, fun h => (List.infix_cons_iff.mp h).elim hbegins hfree⟩
        rw [findLast?, hnone]
        exact if_neg (by simpa [beginsWith] using hbegins)
    · exact Or.inr ⟨c :: u, v, rfl, hv, by simp [findLast?, hsome]⟩

/-- **The text after the last occurrence of a piece.** -/
theorem afterLast_cases {piece : List Char} (hne : piece ≠ []) (text : List Char) :
    (¬ piece <:+: text ∧ afterLast piece text = text) ∨
      ∃ u v, text = u ++ (piece ++ v) ∧ ¬ piece <:+: v ∧ afterLast piece text = v := by
  rcases findLast?_cases hne text with ⟨hnone, hfree⟩ | ⟨u, v, rfl, hv, hsome⟩
  · exact Or.inl ⟨hfree, by rw [afterLast, hnone]⟩
  · refine Or.inr ⟨u, v, rfl, hv, ?_⟩
    rw [afterLast, hsome]
    show (u ++ (piece ++ v)).drop (u.length + piece.length) = v
    rw [← List.append_assoc, ← List.length_append, List.drop_left]

/-- **The text after the last occurrence of a character.** -/
theorem afterLast_char (x : Char) (text : List Char) :
    afterLast [x] text = text.rtakeWhile (· != x) := by
  rcases afterLast_cases (List.cons_ne_nil x []) text with ⟨hfree, hafter⟩ | ⟨u, v, rfl, hv, hafter⟩
  · rw [hafter, rtakeWhile_eq_self fun h => hfree (List.singleton_infix_iff x text |>.mpr h)]
  · rw [hafter, List.singleton_append, rtakeWhile_append_cons,
      rtakeWhile_eq_self fun h => hv (List.singleton_infix_iff x v |>.mpr h)]

end Last

/-! ## Lines -/

/-- The last line of a text. -/
def lastLine (text : List Char) : List Char := text.rtakeWhile (· != '\n')

theorem lastLine_eq_self (h : '\n' ∉ v) : lastLine v = v := rtakeWhile_eq_self h

theorem lastLine_append_cons (u v : List Char) : lastLine (u ++ '\n' :: v) = lastLine v :=
  rtakeWhile_append_cons '\n' u v

/-- **The line around the place where two texts meet.** -/
theorem lineAt_append (u t : List Char) :
    lineAt (u ++ t) u.length = lastLine u ++ t.takeWhile (· != '\n') := by
  rw [lineAt, List.take_left, List.drop_left, afterLast_char, lastLine]

end PlanAudit.Plan
