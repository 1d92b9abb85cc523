import SchemaModel.DecodeError
import SchemaModel.Schema.Basic

/-!
# Schema nodes from JSON

A node is written as an object, or as an array of its slots in order.  The members of an object
are read in document order and fill the slots of a draft; the first error ends the reading, and
only then is a missing type noticed.  Null stands for an absent value in every slot but the type
and the properties.

* `Draft` — the slots filled so far;
* `Draft.fill` — reads a value into a slot;
* `Schema.ofJson` — the node that a value describes.
-/

namespace SchemaModel

namespace Schema

/-- The slots filled so far; a slot filled with null is filled all the same. -/
structure Draft where
  type : Option TypeExpr := none
  targetType : Option (Option String) := none
  title : Option (Option String) := none
  description : Option (Option String) := none
  properties : Option (List (String × Schema)) := none
  items : Option (Option Schema) := none
  prefixItems : Option (Option (List Schema)) := none
  oneOf : Option (Option (List Schema)) := none
  enum : Option (Option (List String)) := none
  default : Option (Option Json) := none
  declaredFields : Option (Option (List String)) := none

/-- How a value reads in the three kinds of slots that hold nodes. -/
structure Readings where
  node : Unit → Except DecodeError Schema
  nodes : Unit → Except DecodeError (List Schema)
  nodeTable : Unit → Except DecodeError (List (String × Schema))

/-- A type expression: a string, or an array of strings. -/
def typeExpr (v : Json) : Except DecodeError TypeExpr :=
  match v with
  | .string n => .ok (.name n)
  | v =>
    match Decode.strings v with
    | .ok ns => .ok (.choice ns)
    | .error _ => .error (.here .notATypeExpr)

/-- A default value; null is the same as no default. -/
def defaultValue : Json → Option Json
  | .null => none
  | v => some v

/-- A reading of a value that may be null. -/
def unlessNull (v : Json) (read : Unit → Except DecodeError α) : Except DecodeError (Option α) :=
  match v with
  | .null => .ok none
  | _ => (read ()).map some

namespace Draft

/-- Whether a slot has been filled. -/
def isFilled (d : Draft) : Slot → Bool
  | .type => d.type.isSome
  | .targetType => d.targetType.isSome
  | .title => d.title.isSome
  | .description => d.description.isSome
  | .properties => d.properties.isSome
  | .items => d.items.isSome
  | .prefixItems => d.prefixItems.isSome
  | .oneOf => d.oneOf.isSome
  | .enum => d.enum.isSome
  | .default => d.default.isSome
  | .declaredFields => d.declaredFields.isSome

/-- Reads a value into a slot; the readings are those of the value. -/
def fill (d : Draft) (slot : Slot) (v : Json) (r : Readings) : Except DecodeError Draft :=
  match slot with
  | .type => (typeExpr v).map fun x => { d with type := some x }
  | .targetType => (Decode.optional Decode.string v).map fun x => { d with targetType := some x }
  | .title => (Decode.optional Decode.string v).map fun x => { d with title := some x }
  | .description =>
    (Decode.optional Decode.string v).map fun x => { d with description := some x }
  | .properties => (r.nodeTable ()).map fun x => { d with properties := some x }
  | .items => (unlessNull v r.node).map fun x => { d with items := some x }
  | .prefixItems => (unlessNull v r.nodes).map fun x => { d with prefixItems := some x }
  | .oneOf => (unlessNull v r.nodes).map fun x => { d with oneOf := some x }
  | .enum => (Decode.optional Decode.strings v).map fun x => { d with enum := some x }
  | .default => .ok { d with default := some (defaultValue v) }
  | .declaredFields =>
    (Decode.optional Decode.strings v).map fun x => { d with declaredFields := some x }

/-- The node of a draft; only the type may not be missing. -/
def finish (d : Draft) : Except DecodeError Schema :=
  match d.type with
  | none => .error (.here (.missingField Slot.type.key))
  | some type =>
    .ok {
      type
      targetType := d.targetType.join
      title := d.title.join
      description := d.description.join
      properties := d.properties.getD []
      items := d.items.join
      prefixItems := d.prefixItems.join
      oneOf := d.oneOf.join
      enum := d.enum.join
      default := d.default.join
      declaredFields := d.declaredFields.join }

end Draft

mutual

/-- How a value reads as a node, as a list of nodes and as a table of nodes. -/
def readings : Json → Readings
  | .object members =>
    { node := fun _ => do (← fillMembers {} members).finish
      nodes := fun _ => .error (.here (.wrongType .map .sequence))
      nodeTable := fun _ => nodeMembers members }
  | .array items =>
    { node := fun _ =>
        if items.isEmpty then .error (.here (.emptySequence .node Slot.all.length))
        else do
          let draft ← fillElements {} 0 items
          if Slot.all.length < items.length then .error (.here (.tooManyElements items.length))
          else draft.finish
      nodes := fun _ => nodeElements 0 items
      nodeTable := fun _ => .error (.here (.wrongType .sequence .map)) }
  | v =>
    { node := fun _ => .error (.unexpected v .node)
      nodes := fun _ => .error (.unexpected v .sequence)
      nodeTable := fun _ => .error (.unexpected v .map) }
termination_by structural v => v

/-- Fills slots from the members of an object.  A slot filled twice, by either of its keys, is an
error of the object, found before the second value is looked at. -/
def fillMembers (d : Draft) : List (String × Json) → Except DecodeError Draft
  | [] => .ok d
  | (key, v) :: rest =>
    match Slot.ofKey? key with
    | none => fillMembers d rest
    | some slot =>
      if d.isFilled slot then .error (.here (.duplicateField slot.key))
      else
        match Decode.at_ (.key key) (d.fill slot v (readings v)) with
        | .error e => .error e
        | .ok d => fillMembers d rest
termination_by structural ms => ms

/-- Fills slots from the elements of an array, in the order of the slots from an index on.
Elements beyond the last slot are not looked at. -/
def fillElements (d : Draft) (i : Nat) : List Json → Except DecodeError Draft
  | [] => .ok d
  | v :: rest =>
    match Slot.all[i]? with
    | none => .ok d
    | some slot =>
      match Decode.at_ (.index i) (d.fill slot v (readings v)) with
      | .error e => .error e
      | .ok d => fillElements d (i + 1) rest
termination_by structural vs => vs

/-- The nodes of an array's elements from an index on. -/
def nodeElements (i : Nat) : List Json → Except DecodeError (List Schema)
  | [] => .ok []
  | v :: rest =>
    match Decode.at_ (.index i) ((readings v).node ()) with
    | .error e => .error e
    | .ok node => (nodeElements (i + 1) rest).map (node :: ·)
termination_by structural vs => vs

/-- The nodes of an object's members under their keys. -/
def nodeMembers : List (String × Json) → Except DecodeError (List (String × Schema))
  | [] => .ok []
  | (key, v) :: rest =>
    match Decode.at_ (.key key) ((readings v).node ()) with
    | .error e => .error e
    | .ok node => (nodeMembers rest).map ((key, node) :: ·)
termination_by structural ms => ms

end

/-- The node that a value describes. -/
def ofJson (v : Json) : Except DecodeError Schema := (readings v).node ()

end Schema

end SchemaModel
