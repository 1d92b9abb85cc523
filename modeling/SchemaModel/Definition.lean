import SchemaModel.CompileError
import SchemaModel.Literal
import SchemaModel.Typed.Resolve

/-!
# Definitions

A node of single type `object` with a non-empty list of declared fields becomes a definition.  The
walk that finds them goes through the alternatives of an object and then the properties it
declares, in declared order, and through the elements of an array; a definition comes after all
that are found below its node.

* `Field`, `Definition` — what is defined;
* `Definition.visit` — the definitions found from a node on;
* `Typed.definitions` — the definitions of a document.
-/

namespace SchemaModel

/-- A field with its type and the expression of its default value. -/
structure Field where
  name : String
  type : String
  default : Option String
deriving DecidableEq, Repr

/-- An object with its fields in declared order, and the declared names it has no property for. -/
structure Definition where
  name : String
  path : String
  fields : List Field
  declaredAbsent : List String
deriving DecidableEq, Repr

/-- What the visit of a node finds: the expression of its default value and definitions. -/
structure Visit where
  default : Option String
  definitions : List Definition
deriving DecidableEq, Repr

/-- The visit of a property, which matters only if the property is declared. -/
structure PropertyVisit where
  type : String
  outcome : Except CompileError Visit

namespace Definition

/-- The expression of a default value. -/
def defaultLiteral (l : Location) : Option Json → Except CompileError (Option String)
  | none => .ok none
  | some v =>
    match v.toLiteral with
    | .ok literal => .ok (some literal)
    | .error number => .error (.unsupportedLiteral l number)

/-- What declared names come to: the fields, the names without a property, and the definitions
found in the properties. -/
structure Members where
  fields : List Field := []
  absent : List String := []
  definitions : List Definition := []

/-- Looks up declared names one after the other among the visited properties. -/
def members (visits : List (String × PropertyVisit)) :
    List String → Except CompileError Members
  | [] => .ok {}
  | name :: rest =>
    match visits.lookup name with
    | none => do
      let others ← members visits rest
      return { others with absent := name :: others.absent }
    | some v => do
      let visit ← v.outcome
      let others ← members visits rest
      return { others with
        fields := ⟨name, v.type, visit.default⟩ :: others.fields
        definitions := visit.definitions ++ others.definitions }

/-- The definition of a node, after those found in its properties.  Every property must be
declared. -/
def ofObject (l : Location) (descriptor : String) (declared : List String)
    (visits : List (String × PropertyVisit)) : Except CompileError (List Definition) :=
  match visits.find? fun v => !declared.contains v.1 with
  | some undeclared => .error (.invalidFieldList l undeclared.1 declared)
  | none => do
    let found ← members visits declared
    return found.definitions ++ [⟨descriptor, l.text, found.fields, found.absent⟩]

mutual

/-- What is found from a node on. -/
def visit (l : Location) : Typed → Except CompileError Visit
  | ⟨schema, descriptor, items, prefixItems, oneOf, properties⟩ => do
    let default ← defaultLiteral l schema.default
    if schema.isObject then
      let alternatives ← visitList (l.key "oneOf") 0 oneOf
      match schema.declaredFields with
      | some (first :: others) =>
        let own ← ofObject l descriptor (first :: others)
          (visitProperties (l.key "properties") properties)
        return ⟨default, alternatives ++ own⟩
      | _ => return ⟨default, alternatives⟩
    else if schema.isArray then
      match items with
      | some item =>
        let found ← visit (l.key "items") item
        return ⟨default, found.definitions⟩
      | none =>
        let found ← visitList (l.key "prefixItems") 0 prefixItems
        return ⟨default, found⟩
    else return ⟨default, []⟩
termination_by structural t => t

/-- The definitions found from the nodes of a list on, from an index on. -/
def visitList (l : Location) (i : Nat) : List Typed → Except CompileError (List Definition)
  | [] => .ok []
  | t :: rest => do
    let first ← visit (l.index i) t
    let others ← visitList l (i + 1) rest
    return first.definitions ++ others
termination_by structural ts => ts

/-- The visits of the properties of a node. -/
def visitProperties (l : Location) : List (String × Typed) → List (String × PropertyVisit)
  | [] => []
  | (name, t) :: rest =>
    (name, ⟨t.descriptor, visit (l.key name) t⟩) :: visitProperties l rest
termination_by structural ps => ps

end

/-- The field with a name. -/
def field? (d : Definition) (name : String) : Option Field := d.fields.find? (·.name == name)

/-- The names of the fields. -/
def fieldNames (d : Definition) : List String := d.fields.map (·.name)

end Definition

/-- The definitions of a document. -/
def Typed.definitions (root : Typed) : Except CompileError (List Definition) :=
  (Definition.visit .root root).map (·.definitions)

end SchemaModel
