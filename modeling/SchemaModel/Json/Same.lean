import SchemaModel.Json.Basic

/-!
# When two JSON values count as the same

Elements of a list are compared by value: numbers by what they stand for, so `1` and `1.0` are the
same, arrays element by element and objects member by member in document order.  In a long list a
negative zero differs from the other zeros, wherever it stands in an element.

* `Number.same` — equality of the numbers stood for;
* `same` — equality of values;
* `anySame` — whether a list repeats a value.
-/

namespace SchemaModel.Json

/-- The integer equal to a finite 64-bit number, if there is one. -/
def integer? (x : Binary64) : Option Int :=
  let magnitude? : Option Nat :=
    if 0 ≤ x.exponent then some (x.significand * Nat.pow 2 x.exponent.toNat)
    else
      let unit := Nat.pow 2 (-x.exponent).toNat
      if x.significand % unit = 0 then some (x.significand / unit) else none
  magnitude?.map fun m => if x.negative then -(m : Int) else m

/-- Whether a number is a zero with a sign. -/
def Number.isNegativeZero : Number → Bool
  | .int _ => false
  | .float x => x.isZero && x.negative

/-- Whether two numbers stand for the same value. -/
def Number.sameValue : Number → Number → Bool
  | .int a, .int b => a == b
  | .int a, .float x | .float x, .int a => integer? x == some a
  | .float x, .float y => x == y || (x.isZero && y.isZero)

/-- Whether two numbers are the same; the flag says whether zeros are told apart by their sign. -/
def Number.same (signedZeros : Bool) (a b : Number) : Bool :=
  a.sameValue b && (!signedZeros || a.isNegativeZero == b.isNegativeZero)

mutual

/-- Whether two values are the same. -/
def same (signedZeros : Bool) : Json → Json → Bool
  | .null, .null => true
  | .bool a, .bool b => a == b
  | .number a, .number b => a.same signedZeros b
  | .string a, .string b => a == b
  | .array as, .array bs => sameItems signedZeros as bs
  | .object as, .object bs => sameMembers signedZeros as bs
  | _, _ => false
termination_by structural v => v

/-- Whether two lists of elements are the same. -/
def sameItems (signedZeros : Bool) : List Json → List Json → Bool
  | [], [] => true
  | a :: as, b :: bs => same signedZeros a b && sameItems signedZeros as bs
  | _, _ => false
termination_by structural vs => vs

/-- Whether two lists of members are the same. -/
def sameMembers (signedZeros : Bool) : List (String × Json) → List (String × Json) → Bool
  | [], [] => true
  | (k, a) :: as, (l, b) :: bs => k == l && same signedZeros a b && sameMembers signedZeros as bs
  | _, _ => false
termination_by structural ms => ms

end

/-- Whether a value stands twice in a list. -/
def repeats (signedZeros : Bool) : List Json → Bool
  | [] => false
  | v :: rest => rest.any (same signedZeros v) || repeats signedZeros rest

/-- The greatest length of a list that is not long. -/
def shortLimit : Nat := 15

/-- Whether a list repeats a value. -/
def anySame (items : List Json) : Bool := repeats (shortLimit < items.length) items

end SchemaModel.Json
