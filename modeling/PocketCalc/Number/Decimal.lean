import PocketCalc.Number.Rank

/-!
# Decimals

A decimal is a coefficient and a power of ten. This module reads the nearest double off a decimal
and rounds a fraction to a count of significant digits. All arithmetic is on natural numbers, so
every rounding is exact.
-/

namespace PocketCalc.Number

/-- The decimal `coefficient * 10 ^ exponent`. -/
structure Decimal where
  coefficient : Nat
  exponent : Int
  deriving DecidableEq

namespace Decimal

/-- Numerator of the decimal as a fraction. -/
def num (d : Decimal) : Nat := d.coefficient * Nat.pow 10 d.exponent.toNat

/-- Denominator of the decimal as a fraction. -/
def den (d : Decimal) : Nat := Nat.pow 10 (-d.exponent).toNat

/-- The rank of the double nearest to the decimal. From `10 ^ 310` upwards that is infinity, and
below `10 ^ -324` it is zero, so no power of ten beyond that range is ever formed. -/
def rank (d : Decimal) : Nat :=
  if d.coefficient = 0 then 0
  else if 310 ≤ d.exponent then infiniteRank
  else if d.exponent + (d.coefficient.log2 + 1 : Nat) < -324 then 0
  else nearestRank d.num d.den

/-- The double nearest to the decimal under a sign. -/
def toFloat (negative : Bool) (d : Decimal) : Float := ofRank negative d.rank

/-- The same decimal with no trailing zero in its coefficient. -/
def trimmed (d : Decimal) : Decimal :=
  if d.coefficient ≠ 0 ∧ d.coefficient % 10 = 0 then
    trimmed ⟨d.coefficient / 10, d.exponent + 1⟩
  else d
termination_by d.coefficient
decreasing_by omega

/-- The digits of the coefficient. -/
def digits (d : Decimal) : List Char := Nat.toDigits 10 d.coefficient

/-- The power of ten of the leading digit. -/
def leadingPlace (d : Decimal) : Int := d.exponent + (d.digits.length - 1 : Nat)

end Decimal

/-- The double nearest to a whole number. -/
def ofInt (n : Int) : Float := Decimal.toFloat (n < 0) ⟨n.natAbs, 0⟩

/-! ## Significant digits -/

/-- The power of ten of the leading digit of `num / den`, for a fraction that is not zero. -/
def decade (num den : Nat) : Int :=
  if den ≤ num then (((Nat.toDigits 10 (num / den)).length - 1 : Nat) : Int)
  else -((Nat.toDigits 10 ((den - 1) / num)).length : Int)

/-- The fraction `num / den` counted in units of `10 ^ place`, as a fraction again. -/
def inPlaces (num den : Nat) (place : Int) : Nat × Nat :=
  (num * Nat.pow 10 (-place).toNat, den * Nat.pow 10 place.toNat)

/-- The fraction `num / den` rounded to `count` significant digits, halves to even. -/
def toSignificant (count num den : Nat) : Decimal :=
  let place := decade num den - (count - 1 : Nat)
  let scaled := inPlaces num den place
  ⟨roundHalfEven scaled.1 scaled.2, place⟩

/-- The fraction `num / den` rounded to a count of decimal places, halves to even. -/
def toPlaces (places num den : Nat) : Decimal :=
  ⟨roundHalfEven (num * Nat.pow 10 places) den, -places⟩

end PocketCalc.Number
