import SchemaModel.Json.Same

/-!
# What a JSON schema accepts

A schema is a JSON value whose members are keywords, each with a verdict of its own on a value.  The
keywords below are those of the meta-schema, read as the draft of 2020-12 has them.  A keyword for
values of one type lets all others pass, and an unknown one, a title for instance, lets everything
pass.

References make schemas recursive, so a schema is read against a guess of what its references
accept.  The guesses become better as the references are followed.

* `JsonSchema.admits` — whether a schema accepts a value;
* `JsonSchema.verdicts` — the verdicts of its keywords;
* `JsonSchema.conclusion` — the verdict of a schema from those of its keywords;
* `JsonSchema.reading` — what the references in a schema accept when they are followed.
-/

namespace SchemaModel

namespace JsonSchema

/-- What references are taken to accept. -/
abbrev Reading := String → Json → Bool

/-- Whether a value is of a type. -/
def isOfType : Json → Json → Bool
  | .string "string", .string _ | .string "array", .array _ | .string "object", .object _ => true
  | _, _ => false

/-- Whether a length is at least a number. -/
def isAtLeast (length : Nat) : Json → Bool
  | .number (.int n) => decide (n ≤ length)
  | _ => false

/-- Whether all keys are there. -/
def hasKeys (members : List (String × Json)) : Json → Bool
  | .array keys => keys.all fun
    | .string key => (members.lookup key).isSome
    | _ => false
  | _ => false

/-- The keys that a schema has a schema of its own for. -/
def namedProperties (keywords : List (String × Json)) : List String :=
  match keywords.lookup "properties" with
  | some (.object named) => named.map Prod.fst
  | _ => []

/-- The verdict of a schema, from those of its keywords.  A condition decides whether what follows
from it counts, and nothing else. -/
def conclusion (verdicts : List (String × Bool)) : Bool :=
  (verdicts.all fun (keyword, holds) => keyword = "if" || keyword = "then" || holds) &&
    (!(verdicts.lookup "if").getD false || (verdicts.lookup "then").getD true)

mutual

/-- Whether a schema admits a value. -/
def admits (refs : Reading) : Json → Json → Bool
  | .bool b, _ => b
  | .object keywords, v => conclusion (verdicts refs (namedProperties keywords) keywords v)
  | _, _ => false
termination_by structural schema => schema

/-- The verdicts of keywords. -/
def verdicts (refs : Reading) (named : List String) :
    List (String × Json) → Json → List (String × Bool)
  | [], _ => []
  | (keyword, s) :: rest, v =>
    let holds :=
      match keyword with
      | "$ref" =>
        match s with
        | .string ref => refs ref v
        | _ => false
      | "type" => isOfType s v
      | "const" => s.same false v
      | "minLength" =>
        match v with
        | .string text => isAtLeast text.length s
        | _ => true
      | "minItems" =>
        match v with
        | .array items => isAtLeast items.length s
        | _ => true
      | "uniqueItems" =>
        match s, v with
        | .bool true, .array items => !Json.anySame items
        | _, _ => true
      | "required" =>
        match v with
        | .object members => hasKeys members s
        | _ => true
      | "properties" =>
        match s, v with
        | .object schemas, .object members => admitsMembers refs schemas members
        | _, _ => true
      | "additionalProperties" =>
        match v with
        | .object members => members.all fun m => named.contains m.1 || admits refs s m.2
        | _ => true
      | "items" =>
        match v with
        | .array items => items.all fun u => admits refs s u
        | _ => true
      | "allOf" =>
        match s with
        | .array schemas => (alternatives refs schemas v).all id
        | _ => false
      | "anyOf" =>
        match s with
        | .array schemas => (alternatives refs schemas v).any id
        | _ => false
      | "oneOf" =>
        match s with
        | .array schemas => (alternatives refs schemas v).count true = 1
        | _ => false
      | "if" | "then" => admits refs s v
      | _ => true
    (keyword, holds) :: verdicts refs named rest v
termination_by structural keywords => keywords

/-- The verdicts of several schemas. -/
def alternatives (refs : Reading) : List Json → Json → List Bool
  | [], _ => []
  | s :: rest, v => admits refs s v :: alternatives refs rest v
termination_by structural schemas => schemas

/-- Whether what stands under keys is accepted by the schemas for these keys. -/
def admitsMembers (refs : Reading) : List (String × Json) → List (String × Json) → Bool
  | [], _ => true
  | (key, s) :: rest, members =>
    ((members.lookup key).all fun v => admits refs s v) && admitsMembers refs rest members
termination_by structural schemas => schemas

end

/-- The schema that a reference in another schema leads to. -/
def target? (root : Json) (ref : String) : Option Json :=
  match root with
  | .object keywords =>
    match keywords.lookup "$defs" with
    | some (.object definitions) =>
      (definitions.find? fun d => "#/$defs/" ++ d.1 == ref).map Prod.snd
    | _ => none
  | _ => none

/-- What the references in a schema accept if they are followed a number of times. -/
def reading (root : Json) : Nat → Reading
  | 0, _, _ => false
  | n + 1, ref, v => (target? root ref).any fun s => admits (reading root n) s v

end JsonSchema

end SchemaModel
