import SchemaModel.Binary64.Nearest

/-!
# Products and quotients of magnitudes

A product or a quotient is formed exactly, as a ratio of integers, and rounded once.  Only finite
numbers are multiplied and divided here, and their signs are left out.

* `Binary64.ofNat` — the number nearest to an integer;
* `Binary64.times`, `Binary64.dividedBy` — the rounded product and quotient.
-/

namespace SchemaModel.Binary64

/-- The number nearest to a ratio of integers, zero if the first one is. -/
def ofRatio (num den : Nat) : Binary64 :=
  if num = 0 then ofCode false 0 else ofCode false (codeOfRatio num den)

/-- The number nearest to an integer. -/
def ofNat (n : Nat) : Binary64 := ofRatio n 1

/-- The magnitude of a finite number as a ratio of integers. -/
def ratio (x : Binary64) : Nat × Nat :=
  if 0 ≤ x.exponent then (x.significand * Nat.pow 2 x.exponent.toNat, 1)
  else (x.significand, Nat.pow 2 (-x.exponent).toNat)

/-- The product of two magnitudes. -/
def times (x y : Binary64) : Binary64 :=
  ofRatio (x.ratio.1 * y.ratio.1) (x.ratio.2 * y.ratio.2)

/-- The quotient of two magnitudes, the second one not zero. -/
def dividedBy (x y : Binary64) : Binary64 :=
  ofRatio (x.ratio.1 * y.ratio.2) (x.ratio.2 * y.ratio.1)

/-- The number with the same magnitude and a given sign. -/
def withSign (negative : Bool) (x : Binary64) : Binary64 := ofCode negative x.code

end SchemaModel.Binary64
