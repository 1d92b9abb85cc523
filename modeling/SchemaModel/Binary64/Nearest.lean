import SchemaModel.Binary64.Basic

/-!
# Rounding a decimal to the nearest binary number

A decimal is an integer coefficient times a power of ten.  `Decimal.nearest` rounds it to the
nearest 64-bit number, a tie going to the even pattern, and to infinity past the largest finite
number.  The rounding is exact: the quotient is formed over the integers and rounded once.

* `divHalfEven` — an integer quotient rounded to nearest, ties to even;
* `Binary64.codeOfRatio` — the magnitude field nearest to a positive ratio;
* `Decimal.nearest` — the number nearest to a decimal;
* `Binary64.exactDecimal` — the decimal equal to a finite number.
-/

namespace SchemaModel

/-- The decimal `± coefficient · 10 ^ exponent`. -/
structure Decimal where
  negative : Bool
  coefficient : Nat
  exponent : Int
deriving DecidableEq, Repr, Inhabited

/-- The quotient rounded to the nearest integer, an exact half to the even one. -/
def divHalfEven (num den : Nat) : Nat :=
  let low := num / den
  let twice := 2 * (num % den)
  if twice < den then low
  else if den < twice then low + 1
  else low + low % 2

namespace Binary64

/-- The exponent `e` with `2 ^ e ≤ num / den < 2 ^ (e + 1)`. -/
def floorLog2 (num den : Nat) : Int :=
  let guess : Int := (Nat.log2 num : Int) - (Nat.log2 den : Int)
  let reached :=
    if 0 ≤ guess then den * Nat.pow 2 guess.toNat ≤ num
    else den ≤ num * Nat.pow 2 (-guess).toNat
  if reached then guess else guess - 1

/-- The magnitude field nearest to `num / den`; a carry out of the fraction moves into the
exponent field by itself. -/
def codeOfRatio (num den : Nat) : Nat :=
  let scale : Int := max (floorLog2 num den - 52) (-1074)
  let significand :=
    if 0 ≤ scale then divHalfEven num (den * Nat.pow 2 scale.toNat)
    else divHalfEven (num * Nat.pow 2 (-scale).toNat) den
  min ((scale + 1074).toNat * Nat.pow 2 52 + significand) infinityCode

end Binary64

namespace Decimal

/-- Number of decimal digits of the coefficient. -/
def width (d : Decimal) : Nat := (Nat.toDigits 10 d.coefficient).length

/-- The magnitude field of the nearest number.  Magnitudes of 310 digits or more are past the
finite range and those below `10 ^ -330` round to zero, so no larger power of ten is formed. -/
def nearestCode (d : Decimal) : Nat :=
  let top : Int := d.exponent + d.width
  if d.coefficient = 0 then 0
  else if 310 < top then Binary64.infinityCode
  else if top < -330 then 0
  else if 0 ≤ d.exponent then Binary64.codeOfRatio (d.coefficient * Nat.pow 10 d.exponent.toNat) 1
  else Binary64.codeOfRatio d.coefficient (Nat.pow 10 (-d.exponent).toNat)

/-- The 64-bit number nearest to a decimal. -/
def nearest (d : Decimal) : Binary64 := Binary64.ofCode d.negative d.nearestCode

end Decimal

/-- The decimal equal to a finite number: a negative power of two is a power of five over one of
ten. -/
def Binary64.exactDecimal (x : Binary64) : Decimal :=
  if 0 ≤ x.exponent then ⟨x.negative, x.significand * Nat.pow 2 x.exponent.toNat, 0⟩
  else ⟨x.negative, x.significand * Nat.pow 5 (-x.exponent).toNat, x.exponent⟩

end SchemaModel
