import SchemaModel.Json.Fitted

/-!
# The meta-schema as a document

The grammar of documents, written as a JSON schema of its own for other tools to read.  The check
of documents does not read it, and finds the same documents in order.

* `MetaSchema.document` — the schema;
* `MetaSchema.documentText` — its text, no line wider than 80.
-/

namespace SchemaModel.MetaSchema

/-- A reference to a definition of the schema. -/
def reference (name : String) : Json := .object [("$ref", .string ("#/$defs/" ++ name))]

/-- A schema of a type with further rules. -/
def typed (type : String) (rules : List (String × Json)) : Json :=
  .object (("type", .string type) :: rules)

/-- A lower bound. -/
def atLeast (keyword : String) (n : Nat) : String × Json := (keyword, .number (.int n))

/-- Strings. -/
def texts : Json := typed "string" []

/-- Non-empty strings. -/
def names : Json := typed "string" [atLeast "minLength" 1]

/-- Non-empty arrays. -/
def filled (elements : Json) : Json :=
  typed "array" [("items", elements), atLeast "minItems" 1]

/-- Types. -/
def typeExpr : Json := .object [("oneOf", .array [names, filled names])]

/-- Arrays of different strings. -/
def nameList : Json := typed "array" [("items", texts), ("uniqueItems", .bool true)]

/-- Non-empty arrays of nodes. -/
def nodeList : Json := filled (reference "node")

/-- Objects that have a key. -/
def requiring (key : String) : String × Json := ("required", .array [.string key])

/-- Objects whose type, if there is one, is the given one. -/
def typeIs (type : String) : String × Json :=
  ("properties", .object [("type", .object [("const", .string type)])])

/-- The slots of a node. -/
def slots : List (String × Json) :=
  [("type", typeExpr),
    ("target_type", names),
    ("cpp_type", names),
    ("title", texts),
    ("description", texts),
    ("properties", typed "object" [("additionalProperties", reference "node")]),
    ("items", reference "node"),
    ("prefixItems", reference "node_list"),
    ("oneOf", reference "node_list"),
    ("enum", filled texts),
    ("declared_fields", reference "name_list"),
    ("cpp_fields", reference "name_list")]

/-- The rules that tie two slots of a node together. -/
def ties : List Json :=
  [.object
      [("if", .object [typeIs "array", requiring "type"]),
        ("then", .object [("anyOf", .array
          [.object [requiring "items"], .object [requiring "prefixItems"]])])],
    .object
      [("if", .object [requiring "oneOf"]),
        ("then", .object [typeIs "object"])]]

/-- Nodes. -/
def node : Json :=
  typed "object" [requiring "type", ("properties", .object slots), ("allOf", .array ties)]

/-- The schema of documents. -/
def document : Json :=
  .object
    [("$schema", .string "https://json-schema.org/draft/2020-12/schema"),
      ("title", .string "json-typemodel input schema"),
      ("$ref", .string "#/$defs/node"),
      ("$defs", .object
        [("name_list", nameList), ("node_list", nodeList), ("node", node)])]

/-- The text of the schema, ended by a line break. -/
def documentText : String := document.fitted 80 ++ "\n"

end SchemaModel.MetaSchema
