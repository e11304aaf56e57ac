/-!
# Rounding quotients

A quotient of natural numbers is rounded to the nearest natural number; halfway between two it goes
to the even one.

## Main definitions

* `roundDiv`: the rounded quotient
* `roundScaled`: the rounded quotient of a fraction by a power of two

## Main results

* `roundDiv_error`: the rounded quotient is off by at most one half
* `roundDiv_tie`: halfway between two numbers it is even
-/

namespace PlanAudit.Number

/-- The natural number nearest to `num / den`, the even one of two equally near. -/
def roundDiv (num den : Nat) : Nat :=
  let q := num / den
  let r := num % den
  if 2 * r < den then q
  else if den < 2 * r then q + 1
  else q + q % 2

/-- The natural number nearest to `num / (den * 2 ^ exponent)`. -/
def roundScaled (num den : Nat) (exponent : Int) : Nat :=
  roundDiv (num * Nat.pow 2 (-exponent).toNat) (den * Nat.pow 2 exponent.toNat)

/-- The rounded quotient is off by at most one half. -/
theorem roundDiv_error (num : Nat) {den : Nat} (pos : 0 < den) :
    2 * num ≤ 2 * (den * roundDiv num den) + den ∧
      2 * (den * roundDiv num den) ≤ 2 * num + den := by
  have split : den * (num / den) + num % den = num := Nat.div_add_mod num den
  have small : num % den < den := Nat.mod_lt _ pos
  have next : den * (num / den + 1) = den * (num / den) + den := Nat.mul_succ ..
  rcases Nat.lt_trichotomy (2 * (num % den)) den with h | h | h
  · simp only [roundDiv, h, if_true]
    generalize den * (num / den) = whole at *
    omega
  · have tie : roundDiv num den = num / den + num / den % 2 := by simp [roundDiv, h]
    rw [tie]
    rcases Nat.mod_two_eq_zero_or_one (num / den) with even | odd
    · rw [even, Nat.add_zero]
      generalize den * (num / den) = whole at *
      omega
    · rw [odd, next]
      generalize den * (num / den) = whole at *
      omega
  · have up : roundDiv num den = num / den + 1 := by simp [roundDiv, Nat.lt_asymm h, h]
    rw [up, next]
    generalize den * (num / den) = whole at *
    omega

/-- Halfway between two numbers the rounded quotient is even. -/
theorem roundDiv_tie {num den : Nat} (h : 2 * (num % den) = den) : roundDiv num den % 2 = 0 := by
  unfold roundDiv
  simp only [h, Nat.lt_irrefl, if_false]
  omega

end PlanAudit.Number
