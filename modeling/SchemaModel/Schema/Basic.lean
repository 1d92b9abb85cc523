import SchemaModel.Json.Basic

/-!
# Schema nodes

A schema node describes one value: by a type name or a list of them, and by whatever else its
document says.  A node keeps everything it was given, also in slots that its type does not use.

* `TypeExpr` — one type name, or a choice between several;
* `Schema` — a node with its child nodes;
* `Slot` — the slots of a node in their order, with the keys that fill them.
-/

namespace SchemaModel

/-- The type of a node: one name, or a choice between several. -/
inductive TypeExpr where
  | name (n : String)
  | choice (ns : List String)
deriving DecidableEq, Repr, Inhabited

namespace TypeExpr

/-- The name of a type that is no choice. -/
def single? : TypeExpr → Option String
  | .name n => some n
  | .choice _ => none

/-- Whether the type is the given single name. -/
def isName (t : TypeExpr) (n : String) : Bool := t.single? == some n

/-- The written form of a type. -/
def text : TypeExpr → String
  | .name n => n
  | .choice ns => "[" ++ ", ".intercalate ns ++ "]"

end TypeExpr

/-- A schema node.  `declaredFields` lists the fields of an object that becomes a definition, in
their order; `targetType` overrides what the shape of the node would give. -/
structure Schema where
  type : TypeExpr
  targetType : Option String
  title : Option String
  description : Option String
  properties : List (String × Schema)
  items : Option Schema
  prefixItems : Option (List Schema)
  oneOf : Option (List Schema)
  enum : Option (List String)
  default : Option Json
  declaredFields : Option (List String)

namespace Schema

/-- A node with nothing but a type name. -/
def ofTypeName (n : String) : Schema :=
  ⟨.name n, none, none, none, [], none, none, none, none, none, none⟩

instance : Inhabited Schema := ⟨ofTypeName ""⟩

/-- Whether the type is the single name `object`. -/
def isObject (s : Schema) : Bool := s.type.isName "object"

/-- Whether the type is the single name `array`. -/
def isArray (s : Schema) : Bool := s.type.isName "array"

/-- Whether the type is the single name `string`. -/
def isString (s : Schema) : Bool := s.type.isName "string"

end Schema

/-- The slots of a node. -/
inductive Slot where
  | type
  | targetType
  | title
  | description
  | properties
  | items
  | prefixItems
  | oneOf
  | enum
  | default
  | declaredFields
deriving DecidableEq, Repr

namespace Slot

/-- The slots in the order of a node written as an array. -/
def all : List Slot :=
  [.type, .targetType, .title, .description, .properties, .items, .prefixItems, .oneOf, .enum,
    .default, .declaredFields]

/-- The key of a slot. -/
def key : Slot → String
  | .type => "type"
  | .targetType => "target_type"
  | .title => "title"
  | .description => "description"
  | .properties => "properties"
  | .items => "items"
  | .prefixItems => "prefixItems"
  | .oneOf => "oneOf"
  | .enum => "enum"
  | .default => "default"
  | .declaredFields => "declared_fields"

/-- The slot that a key fills; two slots have a second key. -/
def ofKey? : String → Option Slot
  | "type" => some .type
  | "target_type" | "cpp_type" => some .targetType
  | "title" => some .title
  | "description" => some .description
  | "properties" => some .properties
  | "items" => some .items
  | "prefixItems" => some .prefixItems
  | "oneOf" => some .oneOf
  | "enum" => some .enum
  | "default" => some .default
  | "declared_fields" | "cpp_fields" => some .declaredFields
  | _ => none

theorem ofKey?_key (s : Slot) : ofKey? s.key = some s := by cases s <;> rfl

end Slot

end SchemaModel
