import SchemaModel.Json.Same
import SchemaModel.Json.Text

/-!
# What a document may not be

The meta-schema is the grammar of documents.  A document is checked against it node by node, and
all its violations are listed: those of a node's slots in the order of the grammar, whatever their
order in the document, and then those of the rules that tie two slots together.

* `Violation` — one broken rule;
* `violations` — all rules that a document breaks;
* `Validator` — a check of raw documents; `Validator.metaSchema` and `Validator.acceptAll`.
-/

namespace SchemaModel

/-- One broken rule of the meta-schema. -/
inductive MetaSchema.Violation where
  | notOfType (v : Json) (type : String)
  | typeMissing
  | notATypeExpr (v : Json)
  | emptyName
  | emptyList
  | repeatedElements (items : List Json)
  | arrayWithoutElements (v : Json)
  | objectExpected

namespace MetaSchema

/-- The wording of a violation. -/
def Violation.message : Violation → String
  | .notOfType v type => v.text ++ " is not of type \"" ++ type ++ "\""
  | .typeMissing => "\"type\" is a required property"
  | .notATypeExpr v =>
    v.text ++ " is not valid under any of the schemas listed in the 'oneOf' keyword"
  | .emptyName => "\"\" is shorter than 1 character"
  | .emptyList => "[] has less than 1 item"
  | .repeatedElements items => (Json.array items).text ++ " has non-unique elements"
  | .arrayWithoutElements v =>
    v.text ++ " is not valid under any of the schemas listed in the 'anyOf' keyword"
  | .objectExpected => "\"object\" was expected"

/-- A non-empty string. -/
def isName : Json → Bool
  | .string s => s ≠ ""
  | _ => false

/-- A type: a name, or a non-empty array of names. -/
def isTypeExpr : Json → Bool
  | .array items => !items.isEmpty && items.all isName
  | v => isName v

/-- A string. -/
def textViolations : Json → List Violation
  | .string _ => []
  | v => [.notOfType v "string"]

/-- A name. -/
def nameViolations : Json → List Violation
  | .string s => if s = "" then [.emptyName] else []
  | v => [.notOfType v "string"]

/-- A type. -/
def typeViolations (v : Json) : List Violation := if isTypeExpr v then [] else [.notATypeExpr v]

/-- A non-empty array of strings. -/
def enumViolations : Json → List Violation
  | .array items => if items.isEmpty then [.emptyList] else items.flatMap textViolations
  | v => [.notOfType v "array"]

/-- An array of different strings. -/
def nameListViolations : Json → List Violation
  | .array items =>
    (if Json.anySame items then [.repeatedElements items] else []) ++ items.flatMap textViolations
  | v => [.notOfType v "array"]

/-- The keys in the order of the grammar. -/
def keys : List String :=
  ["type", "target_type", "cpp_type", "title", "description", "properties", "items",
    "prefixItems", "oneOf", "enum", "declared_fields", "cpp_fields"]

/-- A node of single type `array` has elements of some kind. -/
def arrayViolations (members : List (String × Json)) : List Violation :=
  match members.lookup "type" with
  | some (.string "array") =>
    if (members.lookup "items").isSome || (members.lookup "prefixItems").isSome then []
    else [.arrayWithoutElements (.object members)]
  | _ => []

/-- A node with alternatives is of single type `object`. -/
def oneOfViolations (members : List (String × Json)) : List Violation :=
  match members.lookup "oneOf", members.lookup "type" with
  | some _, some (.string "object") => []
  | some _, some _ => [.objectExpected]
  | _, _ => []

mutual

/-- The rules that a value breaks as a node. -/
def violations : Json → List Violation
  | .object members =>
    let slots := slotViolations members
    (if (members.lookup "type").isSome then [] else [.typeMissing]) ++
      keys.flatMap (fun key => (slots.lookup key).getD []) ++
      arrayViolations members ++ oneOfViolations members
  | v => [.notOfType v "object"]
termination_by structural v => v

/-- The rules that each member of a node breaks by itself. -/
def slotViolations : List (String × Json) → List (String × List Violation)
  | [] => []
  | (key, v) :: rest =>
    let found :=
      match key with
      | "type" => typeViolations v
      | "target_type" | "cpp_type" => nameViolations v
      | "title" | "description" => textViolations v
      | "properties" =>
        match v with
        | .object members => tableViolations members
        | v => [.notOfType v "object"]
      | "items" => violations v
      | "prefixItems" | "oneOf" =>
        match v with
        | .array items => if items.isEmpty then [.emptyList] else listViolations items
        | v => [.notOfType v "array"]
      | "enum" => enumViolations v
      | "declared_fields" | "cpp_fields" => nameListViolations v
      | _ => []
    (key, found) :: slotViolations rest
termination_by structural ms => ms

/-- The rules that the elements of a list of nodes break. -/
def listViolations : List Json → List Violation
  | [] => []
  | v :: rest => violations v ++ listViolations rest
termination_by structural vs => vs

/-- The rules that the values of a table of nodes break. -/
def tableViolations : List (String × Json) → List Violation
  | [] => []
  | (_, v) :: rest => violations v ++ tableViolations rest
termination_by structural ms => ms

end

end MetaSchema

/-- A check of raw documents; a refusal comes with a readable detail. -/
abbrev Validator := Json → Except String Unit

namespace Validator

/-- Refuses a document with a violation and lists them all. -/
def metaSchema : Validator := fun document =>
  match MetaSchema.violations document with
  | [] => .ok ()
  | found => .error ("; ".intercalate (found.map (·.message)))

/-- Refuses nothing. -/
def acceptAll : Validator := fun _ => .ok ()

end Validator

end SchemaModel
