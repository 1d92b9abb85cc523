import SchemaModel.Binary64.Nearest

/-!
# Writing numbers with a fraction

A finite number is written with some digits after its point, all of it rounded once, a tie going to
the even digit: in fixed notation, in scientific notation, in the shorter one of both, or in
hexadecimal digits with an exponent of two.

* `Floating.fixed`, `Floating.scientific`, `Floating.general`, `Floating.hexadecimal` — the digits
  of a number in the four notations;
* `Floating.sign`, `Floating.word` — what stands before and in place of the digits.
-/

namespace SchemaModel.Shell.Floating

/-- What stands before a number that is not negative. -/
def sign (x : Binary64) (flags : List Char) : String :=
  if x.negative then "-"
  else if flags.contains '+' then "+"
  else if flags.contains ' ' then " "
  else ""

/-- The word for a number that is not finite. -/
def word (x : Binary64) : String := if x.code = Binary64.infinityCode then "inf" else "nan"

/-- Digits with a point after the first ones, which may be left out at the end. -/
def pointed (keepsPoint : Bool) (whole fraction : List Char) : List Char :=
  if fraction.isEmpty ∧ !keepsPoint then whole else whole ++ '.' :: fraction

/-- The coefficient of a decimal that is rounded to a power of ten. -/
def rounded (d : Decimal) (exponent : Int) : Nat :=
  let shift := d.exponent - exponent
  if 0 ≤ shift then d.coefficient * Nat.pow 10 shift.toNat
  else divHalfEven d.coefficient (Nat.pow 10 (-shift).toNat)

/-- Digits without the zeros at their end. -/
def withoutZeros (digits : List Char) : List Char :=
  (digits.reverse.dropWhile (· = '0')).reverse

/-- The digits of a number that has at least some length. -/
def digitsOf (base length n : Nat) : List Char :=
  let ds := Nat.toDigits base n
  List.replicate (length - ds.length) '0' ++ ds

/-- An exponent after its letter, with a sign and at least some digits. -/
def exponentText (letter : Char) (length : Nat) (e : Int) : List Char :=
  letter :: (if e < 0 then '-' else '+') :: digitsOf 10 length e.natAbs

/-- The digits before and after the point in fixed notation. -/
def fixedDigits (x : Binary64) (places : Nat) : List Char × List Char :=
  let digits := digitsOf 10 (places + 1) (rounded x.exactDecimal (-places))
  digits.splitAt (digits.length - places)

/-- Fixed notation. -/
def fixed (keepsPoint : Bool) (places : Nat) (x : Binary64) : List Char :=
  let (whole, fraction) := fixedDigits x places
  pointed keepsPoint whole fraction

/-- The digits in scientific notation, one more than there are places, and the exponent. -/
def scientificDigits (x : Binary64) (places : Nat) : List Char × Int :=
  let d := x.exactDecimal
  if d.coefficient = 0 then (digitsOf 10 (places + 1) 0, 0)
  else
    let e : Int := d.exponent + d.width - 1
    let digits := Nat.toDigits 10 (rounded d (e - places))
    if digits.length = places + 1 then (digits, e) else (digits.take (places + 1), e + 1)

/-- Scientific notation. -/
def scientific (keepsPoint : Bool) (places : Nat) (x : Binary64) : List Char :=
  let (digits, e) := scientificDigits x places
  pointed keepsPoint (digits.take 1) (digits.drop 1) ++ exponentText 'e' 2 e

/-- Fixed notation of what is neither too small nor too great for some number of digits, and
scientific notation of the rest.  Zeros at the end are left out unless the point is kept. -/
def general (keepsPoint : Bool) (precision : Nat) (x : Binary64) : List Char :=
  let count := max precision 1
  let (digits, e) := scientificDigits x (count - 1)
  let shown (fraction : List Char) : List Char :=
    if keepsPoint then fraction else withoutZeros fraction
  if -4 ≤ e ∧ e < count then
    let (whole, fraction) := fixedDigits x (count - 1 - e).toNat
    pointed keepsPoint whole (shown fraction)
  else pointed keepsPoint (digits.take 1) (shown (digits.drop 1)) ++ exponentText 'e' 2 e

/-- The most hexadecimal digits after the point that a number has. -/
def hexadecimalPlaces : Nat := 13

/-- Hexadecimal notation, with as many places as the number has unless there is a precision. -/
def hexadecimal (keepsPoint : Bool) (precision : Option Nat) (x : Binary64) : List Char :=
  let places := precision.getD hexadecimalPlaces
  let scaled := divHalfEven (x.significand * Nat.pow 16 places) (Nat.pow 16 hexadecimalPlaces)
  let digits := digitsOf 16 (places + 1) scaled
  let (whole, fraction) := digits.splitAt (digits.length - places)
  let fraction := if precision.isNone then withoutZeros fraction else fraction
  let e : Int := if x.isZero then 0 else x.exponent + 52
  pointed keepsPoint whole fraction ++ exponentText 'p' 1 e

end SchemaModel.Shell.Floating
