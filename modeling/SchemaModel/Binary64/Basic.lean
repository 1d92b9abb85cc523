/-!
# Binary floating-point numbers of 64 bits

A number is its bit pattern; sign and magnitude are read off the pattern, and the magnitude of a
finite number is an exact integer multiple of a power of two.  No machine arithmetic is involved:
every operation on these numbers is integer arithmetic on the pattern.

* `Binary64` — the bit pattern;
* `Binary64.isFinite` — neither an infinity nor a not-a-number;
* `Binary64.significand`, `Binary64.exponent` — the magnitude is `significand · 2 ^ exponent`.
-/

namespace SchemaModel

/-- A 64-bit binary floating-point number, held as its bit pattern. -/
structure Binary64 where
  bits : UInt64
deriving DecidableEq, Repr, Inhabited

namespace Binary64

/-- The magnitude field of infinity, one above that of the largest finite number. -/
def infinityCode : Nat := 2047 * Nat.pow 2 52

/-- The exponent and fraction fields read as one number; it grows with the magnitude. -/
def code (x : Binary64) : Nat := x.bits.toNat % Nat.pow 2 63

/-- The sign bit. -/
def negative (x : Binary64) : Bool := decide (Nat.pow 2 63 ≤ x.bits.toNat)

/-- The number with a given sign and magnitude field. -/
def ofCode (negative : Bool) (code : Nat) : Binary64 :=
  ⟨UInt64.ofNat (code + if negative then Nat.pow 2 63 else 0)⟩

/-- Neither an infinity nor a not-a-number. -/
def isFinite (x : Binary64) : Bool := decide (x.code < infinityCode)

/-- Either of the two zeros. -/
def isZero (x : Binary64) : Bool := x.code == 0

/-- Offset of the exponent field over the least one; subnormal numbers share the least. -/
def binade (code : Nat) : Nat := code / Nat.pow 2 52 - 1

/-- The integer part of the magnitude. -/
def significand (x : Binary64) : Nat := x.code - binade x.code * Nat.pow 2 52

/-- The power of two that the significand counts. -/
def exponent (x : Binary64) : Int := (binade x.code : Int) - 1074

end Binary64

end SchemaModel
