import PlanAudit.Number.Rounding

/-!
# Binary fractions

Numbers with a mantissa of at most 53 bits times a power of two, which is what fractions and decimal
numbers are rounded to before they are shown or compared.

## Main definitions

* `Binary`: a mantissa and the exponent of a power of two
* `Binary.ofFraction?`, `Binary.ofDecimal?`: the nearest such number, if it is not too large
* `Binary.whole?`: the number as a natural number, if it is one
* `Binary.fixedPlaces`: the number in decimal digits with a fixed number of places
-/

namespace PlanAudit.Number

/-- The number `mantissa * 2 ^ exponent`. -/
structure Binary where
  /-- The mantissa. -/
  mantissa : Nat
  /-- The exponent of the power of two. -/
  exponent : Int
  deriving DecidableEq, Repr

namespace Binary

/-- The number zero. -/
def zero : Binary := ⟨0, 0⟩

/-- The exponent of the largest power of two that is not above `num / den`. -/
def topExponent (num den : Nat) : Int :=
  let guess : Int := (num.log2 : Int) - den.log2
  if num * Nat.pow 2 (-guess).toNat < den * Nat.pow 2 guess.toNat then guess - 1 else guess

/-- The exponent of the last bit of the number nearest to `num / den`. -/
def lastBit (num den : Nat) : Int := max (topExponent num den - 52) (-1074)

/-- The number nearest to `num / den`, unless it is too large. -/
def ofFraction? (num den : Nat) : Option Binary :=
  if num = 0 then some zero
  else
    let exponent := lastBit num den
    let mantissa := roundScaled num den exponent
    if mantissa * Nat.pow 2 exponent.toNat ≥ Nat.pow 2 1024 then none else some ⟨mantissa, exponent⟩

/-- A bound for the decimal exponents of numbers that are neither too large nor zero. -/
def decimalBound : Int := 400

/-- The number of decimal digits of a natural number. -/
def digitCount (n : Nat) : Nat := (toString n).length

/-- The number nearest to `mantissa * 10 ^ exponent`, unless it is too large. -/
def ofDecimal? (mantissa : Nat) (exponent : Int) : Option Binary :=
  let size := digitCount mantissa + exponent
  if mantissa = 0 ∨ size < -decimalBound then some zero
  else if size > decimalBound then none
  else ofFraction? (mantissa * Nat.pow 10 exponent.toNat) (Nat.pow 10 (-exponent).toNat)

/-- The number as a natural number, if it is one. -/
def whole? (b : Binary) : Option Nat :=
  let divisor := Nat.pow 2 (-b.exponent).toNat
  if b.mantissa % divisor = 0 then some (b.mantissa / divisor * Nat.pow 2 b.exponent.toNat)
  else none

/-- The digits of `n`, padded with zeros to a width. -/
def paddedDigits (width n : Nat) : String :=
  let digits := toString n
  String.ofList (List.replicate (width - digits.length) '0') ++ digits

/-- The number in decimal digits with `places` of them after the point; halfway between two the
last digit is even. -/
def fixedPlaces (places : Nat) (b : Binary) : String :=
  let scaled := roundScaled (b.mantissa * Nat.pow 10 places) 1 (-b.exponent)
  toString (scaled / Nat.pow 10 places) ++ "." ++
    paddedDigits places (scaled % Nat.pow 10 places)

end Binary

end PlanAudit.Number
