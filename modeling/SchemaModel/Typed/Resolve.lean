import SchemaModel.CompileError
import SchemaModel.Schema.Nesting
import SchemaModel.Typed.Findings
import SchemaModel.Typed.Shape

/-!
# Typed nodes

Resolving a schema node gives it a descriptor, and every node below that its type uses: the items
and prefix items of an array, the alternatives of an object, and the properties of any node.  The
children that feed a descriptor are resolved before it and the properties after it, so the
findings and the first error come in that order.

* `Typed` — a schema node with its descriptor and its typed children;
* `Typed.resolveNode` — the typed form of a node, with what it adds to the findings;
* `Resolution`, `Schema.resolve` — the typed form of a document.
-/

namespace SchemaModel

/-- A schema node with its descriptor.  Children that the node's type does not use are absent. -/
structure Typed where
  schema : Schema
  descriptor : String
  items : Option Typed
  prefixItems : List Typed
  oneOf : List Typed
  properties : List (String × Typed)

namespace Typed

instance : Inhabited Typed := ⟨⟨default, "", none, [], [], []⟩⟩

/-- The descriptor of a node and whether it is a variant of its own making.  An explicit type
leaves nothing to look up. -/
def describe (options : Options) (l : Location) (s : Schema) (items : Option Typed)
    (prefixItems oneOf : List Typed) : Except CompileError (String × Bool) :=
  match s.targetType with
  | some explicit => .ok (explicit, false)
  | none =>
    let shape := Shape.of s (items.map (·.descriptor)) (prefixItems.map (·.descriptor))
      (oneOf.map (·.descriptor))
    match shape.descriptor options.spellings with
    | .ok descriptor => .ok (descriptor, shape.isVariant)
    | .error name => .error (.unknownType l name)

/-- The findings with what a node adds by itself before its properties. -/
def register (options : Options) (s : Schema) (descriptor : String) (isVariant : Bool)
    (f : Findings) : Findings :=
  let f := if isVariant then f.addVariant options.helpers else f
  match s.enum with
  | some values => if s.isString then f.addEnum options.helpers descriptor values else f
  | none => f

mutual

/-- The typed form of the node at a place and a depth. -/
def resolveNode (options : Options) (l : Location) (depth : Nat) :
    Schema → Findings → Except CompileError (Typed × Findings)
  | ⟨type, targetType, title, description, properties, items, prefixItems, oneOf, enum, dflt,
      declaredFields⟩, f =>
    let s : Schema := ⟨type, targetType, title, description, properties, items, prefixItems,
      oneOf, enum, dflt, declaredFields⟩
    if Nesting.maxNodeDepth < depth then .error (.nestingTooDeep l Nesting.maxNodeDepth)
    else do
      let (items, f) ←
        if s.isArray then
          match items with
          | some item => do
            let (t, f) ← resolveNode options (l.key "items") (depth + 1) item f
            pure (some t, f)
          | none => pure (none, f)
        else pure (none, f)
      let (prefixItems, f) ←
        if s.isArray then
          match prefixItems with
          | some elements => resolveList options (l.key "prefixItems") (depth + 1) 0 elements f
          | none => pure ([], f)
        else pure ([], f)
      let (oneOf, f) ←
        if s.isObject then
          match oneOf with
          | some alternatives => resolveList options (l.key "oneOf") (depth + 1) 0 alternatives f
          | none => pure ([], f)
        else pure ([], f)
      let (descriptor, isVariant) ← describe options l s items prefixItems oneOf
      let f := register options s descriptor isVariant f
      let (properties, f) ←
        resolveProperties options (l.key "properties") (depth + 1) properties f
      let f := f.addIncludes options.includes descriptor
      return (⟨s, descriptor, items, prefixItems, oneOf, properties⟩, f)
termination_by structural s => s

/-- The typed forms of the nodes of a list, from an index on. -/
def resolveList (options : Options) (l : Location) (depth i : Nat) :
    List Schema → Findings → Except CompileError (List Typed × Findings)
  | [], f => .ok ([], f)
  | s :: rest, f => do
    let (t, f) ← resolveNode options (l.index i) depth s f
    let (ts, f) ← resolveList options l depth (i + 1) rest f
    return (t :: ts, f)
termination_by structural ss => ss

/-- The typed forms of the properties of a node. -/
def resolveProperties (options : Options) (l : Location) (depth : Nat) :
    List (String × Schema) → Findings → Except CompileError (List (String × Typed) × Findings)
  | [], f => .ok ([], f)
  | (name, s) :: rest, f => do
    let (t, f) ← resolveNode options (l.key name) depth s f
    let (ts, f) ← resolveProperties options l depth rest f
    return ((name, t) :: ts, f)
termination_by structural ps => ps

end

end Typed

/-- The typed form of a document with all findings. -/
structure Resolution where
  root : Typed
  findings : Findings

/-- The typed form of the document whose root is a node. -/
def Schema.resolve (options : Options) (s : Schema) : Except CompileError Resolution :=
  (Typed.resolveNode options .root 0 s {}).map fun (root, findings) => ⟨root, findings⟩

end SchemaModel
