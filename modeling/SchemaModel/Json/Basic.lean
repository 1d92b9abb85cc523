import SchemaModel.Binary64.Shortest
import SchemaModel.Table

/-!
# JSON values

Objects keep their members in document order, and a number remembers whether it was written as an
integer: `1` and `1.0` are different values.

* `Json.Number` — an integer or a 64-bit number;
* `Json` — the values;
* `Json.HasDistinctKeys` — no object repeats a key, as holds of everything that is read;
* `Json.size` — the number of values inside a value, itself included.
-/

namespace SchemaModel

/-- An integer, or a number written with a fraction or an exponent or too large for one. -/
inductive Json.Number where
  | int (n : Int)
  | float (x : Binary64)
deriving DecidableEq, Repr, Inhabited

/-- A JSON value; the members of an object are in document order. -/
inductive Json where
  | null
  | bool (b : Bool)
  | number (n : Json.Number)
  | string (s : String)
  | array (items : List Json)
  | object (members : List (String × Json))
deriving Repr, Inhabited

namespace Json

/-- The written form of a number. -/
def Number.text : Number → String
  | .int n => toString n
  | .float x => x.text

/-- Neither an infinity nor a not-a-number. -/
def Number.isFinite : Number → Bool
  | .int _ => true
  | .float x => x.isFinite

/-- Whether a value is an object. -/
def isObject : Json → Bool
  | .object _ => true
  | _ => false

mutual

/-- Number of values inside a value, itself included. -/
def size : Json → Nat
  | .array items => 1 + sizeOfItems items
  | .object members => 1 + sizeOfMembers members
  | _ => 1
termination_by structural v => v

/-- Number of values inside the elements of an array. -/
def sizeOfItems : List Json → Nat
  | [] => 0
  | v :: rest => v.size + sizeOfItems rest
termination_by structural vs => vs

/-- Number of values inside the members of an object. -/
def sizeOfMembers : List (String × Json) → Nat
  | [] => 0
  | (_, v) :: rest => v.size + sizeOfMembers rest
termination_by structural ms => ms

end

mutual

/-- No object inside the value repeats a key. -/
def HasDistinctKeys : Json → Prop
  | .array items => ItemsHaveDistinctKeys items
  | .object members => (members.map Prod.fst).Nodup ∧ MembersHaveDistinctKeys members
  | _ => True
termination_by structural v => v

/-- No object inside the elements repeats a key. -/
def ItemsHaveDistinctKeys : List Json → Prop
  | [] => True
  | v :: rest => v.HasDistinctKeys ∧ ItemsHaveDistinctKeys rest
termination_by structural vs => vs

/-- No object inside the members' values repeats a key. -/
def MembersHaveDistinctKeys : List (String × Json) → Prop
  | [] => True
  | (_, v) :: rest => v.HasDistinctKeys ∧ MembersHaveDistinctKeys rest
termination_by structural ms => ms

end

theorem size_pos (v : Json) : 0 < v.size := by
  cases v <;> simp only [size] <;> omega

end Json

end SchemaModel
