import SchemaModel.Json.SyntaxError
import SchemaModel.Text.Quoted
import SchemaModel.Json.Basic

/-!
# Why a JSON value is not what it should be

Decoding stops at the first error.  The error says what was found, what was expected and the path
to it; the path is built from the inside out, each enclosing value putting its step in front.

* `DecodeError` — a cause and a path;
* `DecodeError.under` — the same error seen from the enclosing value;
* `Decode.string`, `Decode.strings`, `Decode.stringTable`, `Decode.optional` — the readings that
  several formats share.
-/

namespace SchemaModel

/-- What was found in place of the expected value. -/
inductive DecodeError.Found where
  | null
  | bool (b : Bool)
  | number (n : Json.Number)
  | string (s : String)
  | sequence
  | map
deriving DecidableEq, Repr

/-- What was expected. -/
inductive DecodeError.Expected where
  | string
  | sequence
  | map
  | node
  | settings
deriving DecidableEq, Repr

/-- Why a value does not decode. -/
inductive DecodeError.Cause where
  | wrongType (found : DecodeError.Found) (expected : DecodeError.Expected)
  | notATypeExpr
  | missingField (name : String)
  | duplicateField (name : String)
  | emptySequence (expected : DecodeError.Expected) (fields : Nat)
  | tooManyElements (count : Nat)
  | malformed (e : Json.SyntaxError)
deriving DecidableEq, Repr

/-- One step of the path to an error; a member without a readable key is unknown. -/
inductive DecodeError.PathStep where
  | key (name : String)
  | index (i : Nat)
  | unknown
deriving DecidableEq, Repr

/-- A cause and the path to it from the decoded value. -/
structure DecodeError where
  path : List DecodeError.PathStep
  cause : DecodeError.Cause
deriving DecidableEq, Repr

namespace DecodeError

/-- The kind of a value, as errors name it. -/
def Found.ofJson : Json → Found
  | .null => .null
  | .bool b => .bool b
  | .number n => .number n
  | .string s => .string s
  | .array _ => .sequence
  | .object _ => .map

/-- The wording of what was found. -/
def Found.text : Found → String
  | .null => "null"
  | .bool b => "boolean `" ++ (if b then "true" else "false") ++ "`"
  | .number (.int n) => "integer `" ++ toString n ++ "`"
  | .number (.float x) => "floating point `" ++ x.text ++ "`"
  | .string s => "string " ++ Text.quoted s
  | .sequence => "sequence"
  | .map => "map"

/-- The wording of what was expected. -/
def Expected.text : Expected → String
  | .string => "a string"
  | .sequence => "a sequence"
  | .map => "a map"
  | .node => "struct SchemaNode"
  | .settings => "struct Settings"

/-- The wording of a cause. -/
def Cause.text : Cause → String
  | .wrongType found expected => "invalid type: " ++ found.text ++ ", expected " ++ expected.text
  | .notATypeExpr => "data did not match any variant of untagged enum TypeSpec"
  | .missingField name => "missing field `" ++ name ++ "`"
  | .duplicateField name => "duplicate field `" ++ name ++ "`"
  | .emptySequence expected fields =>
    "invalid length 0, expected " ++ expected.text ++ " with " ++ toString fields ++ " elements"
  | .tooManyElements count =>
    "invalid length " ++ toString count ++ ", expected fewer elements in array"
  | .malformed e => e.message

/-- A step of a path with the dot that parts it from what is before it. -/
def PathStep.text (first : Bool) : PathStep → String
  | .key name => (if first then "" else ".") ++ name
  | .index i => "[" ++ toString i ++ "]"
  | .unknown => (if first then "" else ".") ++ "?"

/-- The written form of a path; the empty path is a dot. -/
def pathText : List PathStep → String
  | [] => "."
  | s :: rest => s.text true ++ String.join (rest.map (PathStep.text false))

/-- The wording of an error. -/
def message (e : DecodeError) : String :=
  "at JSON path " ++ pathText e.path ++ " → " ++ e.cause.text

/-- An error of the value itself. -/
def here (cause : Cause) : DecodeError := ⟨[], cause⟩

/-- The error seen from the value that a step leads into. -/
def under (step : PathStep) (e : DecodeError) : DecodeError := ⟨step :: e.path, e.cause⟩

/-- A value of the wrong kind. -/
def unexpected (v : Json) (expected : Expected) : DecodeError :=
  here (.wrongType (.ofJson v) expected)

end DecodeError

namespace Decode

/-- Moves the errors of a reading under a step. -/
def at_ (step : DecodeError.PathStep) (r : Except DecodeError α) : Except DecodeError α :=
  r.mapError (·.under step)

/-- A string. -/
def string : Json → Except DecodeError String
  | .string s => .ok s
  | v => .error (.unexpected v .string)

/-- The strings of an array from an index on. -/
def stringsFrom (i : Nat) : List Json → Except DecodeError (List String)
  | [] => .ok []
  | v :: rest =>
    match at_ (.index i) (string v) with
    | .error e => .error e
    | .ok s => (stringsFrom (i + 1) rest).map (s :: ·)

/-- An array of strings. -/
def strings : Json → Except DecodeError (List String)
  | .array items => stringsFrom 0 items
  | v => .error (.unexpected v .sequence)

/-- The members of an object, all strings. -/
def stringMembers : List (String × Json) → Except DecodeError (List (String × String))
  | [] => .ok []
  | (key, v) :: rest =>
    match at_ (.key key) (string v) with
    | .error e => .error e
    | .ok s => (stringMembers rest).map ((key, s) :: ·)

/-- An object of strings. -/
def stringTable : Json → Except DecodeError (Table String)
  | .object members => (stringMembers members).map Table.ofEntries
  | v => .error (.unexpected v .map)

/-- A value that may be null. -/
def optional (read : Json → Except DecodeError α) : Json → Except DecodeError (Option α)
  | .null => .ok none
  | v => (read v).map some

end Decode

end SchemaModel
