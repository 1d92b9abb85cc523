import SchemaModel.Json.Basic

/-!
# Default values as expressions of the target language

An object becomes a list of pairs, an array an array expression, and null the null pointer.  A
string stands between quotes as it is.  Only a number that is not finite has no expression, and
no document holds one.

* `Json.toLiteral` — the expression of a value, or the written form of the number that has none.
-/

namespace SchemaModel.Json

/-- Expressions between braces. -/
def braced (parts : List String) : String := "\x7b" ++ ",".intercalate parts ++ "\x7d"

/-- A string between quotes, without escapes. -/
def plainQuoted (s : String) : String := "\"" ++ s ++ "\""

mutual

/-- The expression of a value. -/
def toLiteral : Json → Except String String
  | .null => .ok "nullptr"
  | .bool true => .ok "true"
  | .bool false => .ok "false"
  | .number n => if n.isFinite then .ok n.text else .error n.text
  | .string s => .ok (plainQuoted s)
  | .array items => (itemLiterals items).map fun parts => "json::array(" ++ braced parts ++ ")"
  | .object members => (memberLiterals members).map braced
termination_by structural v => v

/-- The expressions of an array's elements. -/
def itemLiterals : List Json → Except String (List String)
  | [] => .ok []
  | v :: rest => do
    let first ← toLiteral v
    let others ← itemLiterals rest
    return first :: others
termination_by structural vs => vs

/-- The pairs of an object's members. -/
def memberLiterals : List (String × Json) → Except String (List String)
  | [] => .ok []
  | (key, v) :: rest => do
    let first ← toLiteral v
    let others ← memberLiterals rest
    return braced [plainQuoted key, first] :: others
termination_by structural ms => ms

end

end SchemaModel.Json
