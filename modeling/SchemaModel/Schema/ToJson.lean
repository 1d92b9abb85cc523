import SchemaModel.Schema.Basic

/-!
# Schema nodes as JSON

A node is written as an object of its filled slots in their order, each under its first key;
absent slots and empty properties are left out.

* `Schema.toJson` — the written form of a node.
-/

namespace SchemaModel

/-- A type expression as JSON. -/
def TypeExpr.toJson : TypeExpr → Json
  | .name n => .string n
  | .choice ns => .array (ns.map .string)

namespace Schema

/-- The member of a slot, if there is a value for it. -/
def member? (slot : Slot) (v : Option Json) : List (String × Json) :=
  match v with
  | none => []
  | some v => [(slot.key, v)]

/-- Strings as JSON. -/
def stringsJson (ss : List String) : Json := .array (ss.map .string)

mutual

/-- The written form of a node. -/
def toJson : Schema → Json
  | { type, targetType, title, description, properties, items, prefixItems, oneOf, enum, default,
      declaredFields } =>
    .object <|
      (Slot.type.key, type.toJson) ::
        member? .targetType (targetType.map .string) ++
        member? .title (title.map .string) ++
        member? .description (description.map .string) ++
        (if properties.isEmpty then []
          else [(Slot.properties.key, .object (propertiesJson properties))]) ++
        (match items with
          | none => []
          | some node => [(Slot.items.key, toJson node)]) ++
        (match prefixItems with
          | none => []
          | some nodes => [(Slot.prefixItems.key, .array (nodesJson nodes))]) ++
        (match oneOf with
          | none => []
          | some nodes => [(Slot.oneOf.key, .array (nodesJson nodes))]) ++
        member? .enum (enum.map stringsJson) ++
        member? .default default ++
        member? .declaredFields (declaredFields.map stringsJson)
termination_by structural s => s

/-- The written forms of nodes. -/
def nodesJson : List Schema → List Json
  | [] => []
  | node :: rest => toJson node :: nodesJson rest
termination_by structural ss => ss

/-- The written forms of nodes under their names. -/
def propertiesJson : List (String × Schema) → List (String × Json)
  | [] => []
  | (name, node) :: rest => (name, toJson node) :: propertiesJson rest
termination_by structural ps => ps

end

end Schema

end SchemaModel
