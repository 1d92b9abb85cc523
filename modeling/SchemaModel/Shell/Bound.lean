/-!
# Bounds on what programs may use

A bound has a value that counts and a greatest value that it may be given, which may be made less
but not greater.  Without a number it is no bound at all.

* `Bound` — a bound;
* `Bound.change` — gives a bound other values.
-/

namespace SchemaModel.Shell

/-- A bound: the value that counts and the greatest one. -/
structure Bound where
  soft : Option Nat := none
  hard : Option Nat := none
deriving DecidableEq, Repr

namespace Bound

/-- Whether a value is within another one. -/
def isWithin : Option Nat → Option Nat → Bool
  | _, none => true
  | none, some _ => false
  | some a, some b => a ≤ b

/-- Gives one of the values or both another value. -/
def change (b : Bound) (ofSoft ofHard : Bool) (value : Option Nat) : Except String Bound :=
  let soft := if ofSoft then value else b.soft
  let hard := if ofHard then value else b.hard
  if !isWithin soft hard then .error "Invalid argument"
  else if !isWithin hard b.hard then .error "Operation not permitted"
  else .ok { soft, hard }

/-- A value as it is shown. -/
def shown (value : Option Nat) : String := value.elim "unlimited" fun n => toString n

end Bound

end SchemaModel.Shell
