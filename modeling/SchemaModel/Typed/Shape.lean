import SchemaModel.Options
import SchemaModel.Schema.Basic

/-!
# Shapes and their descriptors

A descriptor is the type of a node in the target language.  Which one a node gets follows from
its shape: a choice between type names, an array of equal elements, a tuple, a choice between
nodes, or a plain type name.  The descriptors of the child nodes are part of the shape.

* `Shape` — the shapes;
* `Shape.of` — the shape of a node with its children's descriptors;
* `Shape.descriptor` — the descriptor of a shape, or the type name that has no spelling.
-/

namespace SchemaModel

/-- The shape of a node; the parts are descriptors, except for the names of a choice and of a
plain type. -/
inductive Shape where
  | choice (names : List String)
  | array (item : String)
  | tuple (elements : List String)
  | variant (alternatives : List String)
  | plain (name : String)
deriving DecidableEq, Repr

namespace Shape

/-- The shape of a node, given the descriptors of its items, its prefix items and its
alternatives.  Children that the type does not use are not looked at. -/
def of (s : Schema) (items : Option String) (elements alternatives : List String) : Shape :=
  match s.type with
  | .choice names => .choice names
  | .name n =>
    match n, items with
    | "array", some item => .array item
    | "array", none => if s.prefixItems.isSome then .tuple elements else .plain n
    | "object", _ => if s.oneOf.isSome then .variant alternatives else .plain n
    | _, _ => .plain n

/-- Whether the shape is a choice of either kind. -/
def isVariant : Shape → Bool
  | .choice _ | .variant _ => true
  | .array _ | .tuple _ | .plain _ => false

/-- The spelling of a type name, or the name itself if it has none. -/
def spell (spellings : Spellings) (name : String) : Except String String :=
  match spellings.get? name with
  | some spelling => .ok spelling
  | none => .error name

/-- The spellings of type names, from left to right. -/
def spellAll (spellings : Spellings) : List String → Except String (List String)
  | [] => .ok []
  | name :: rest => do
    let first ← spell spellings name
    let others ← spellAll spellings rest
    return first :: others

/-- A generic type applied to its arguments. -/
def apply (generic : String) (arguments : List String) : String :=
  generic ++ "<" ++ ", ".intercalate arguments ++ ">"

/-- The descriptor of a shape.  The names of a choice are looked up before that of the variant. -/
def descriptor (spellings : Spellings) : Shape → Except String String
  | .choice names => do
    let arguments ← spellAll spellings names
    return apply (← spell spellings "variant") arguments
  | .array item => do return apply (← spell spellings "array") [item]
  | .tuple elements => do return apply (← spell spellings "tuple") elements
  | .variant alternatives => do return apply (← spell spellings "variant") alternatives
  | .plain name => spell spellings name

end Shape

end SchemaModel
