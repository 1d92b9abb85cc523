import SchemaModel.MetaSchema.Document
import SchemaModel.MetaSchema.Keywords
import SchemaModel.Proofs.DocumentGrammar

/-!
# The bundled schema accepts what the check accepts

Documents are checked by rules of their own, and the schema that is bundled for other tools says the
same.  Keyword by keyword, each part of it accepts the values that keep a rule of the check.  The
schema is recursive through its references, so the proof for nodes is an induction on values: the
references stand for the nodes inside a value as soon as they are followed often enough.

* `JsonSchema.admits_plain`, `JsonSchema.admits_conditional` — schemas by their keywords;
* `JsonSchema.holds_minLength` and the lemmas after it — what a keyword asks;
* `MetaSchema.admits_slot` — the schemas of the keys of a node;
* `MetaSchema.admits_ties` — the rules that tie two of them together;
* `MetaSchema.admits_node` — a node whose references stand for the nodes inside it;
* `MetaSchema.reading_node` — references that are followed;
* `MetaSchema.document_admits_iff` — the whole schema.
-/

namespace SchemaModel

namespace JsonSchema

/-! ### Schemas by their keywords -/

variable {refs : Reading} {named : List String} {v : Json}

/-- The verdict of a keyword. -/
def holds (refs : Reading) (named : List String) (keyword : String) (s v : Json) : Bool :=
  ((verdicts refs named [(keyword, s)] v).headD (keyword, true)).2

theorem verdicts_eq_map (keywords : List (String × Json)) :
    verdicts refs named keywords v =
      keywords.map fun p => (p.1, holds refs named p.1 p.2 v) := by
  induction keywords with
  | nil => rfl
  | cons p rest ih =>
    obtain ⟨keyword, s⟩ := p
    rw [List.map_cons, ← ih, holds, verdicts.eq_def _ _ ((keyword, s) :: rest),
      verdicts.eq_def _ _ [(keyword, s)]]
    rfl

/-- A schema without a condition accepts what all of its keywords accept. -/
theorem admits_plain {keywords : List (String × Json)}
    (plain : ∀ p ∈ keywords, p.1 ≠ "if" ∧ p.1 ≠ "then") :
    admits refs (.object keywords) v = true ↔
      ∀ p ∈ keywords, holds refs (namedProperties keywords) p.1 p.2 v = true := by
  have unconditional :
      (verdicts refs (namedProperties keywords) keywords v).lookup "if" = none := by
    rw [verdicts_eq_map, List.lookup_eq_none_iff]
    simp only [List.forall_mem_map]
    exact fun p mem => bne_iff_ne.2 (Ne.symm (plain p mem).1)
  rw [admits, conclusion, unconditional, verdicts_eq_map]
  simp only [Option.getD_none, Bool.not_false, Bool.true_or, Bool.and_true, List.all_map,
    List.all_eq_true, Function.comp_apply, Bool.or_eq_true, decide_eq_true_eq]
  refine forall₂_congr fun p mem => ?_
  simp [plain p mem]

/-- A condition asks for what follows from it where it holds. -/
theorem admits_conditional (condition consequence : Json) :
    admits refs (.object [("if", condition), ("then", consequence)]) v = true ↔
      (admits refs condition v = true → admits refs consequence v = true) := by
  have both : verdicts refs (namedProperties [("if", condition), ("then", consequence)])
      [("if", condition), ("then", consequence)] v =
      [("if", admits refs condition v), ("then", admits refs consequence v)] := rfl
  rw [admits, both]
  cases admits refs condition v <;> cases admits refs consequence v <;> decide

theorem alternatives_eq_map (schemas : List Json) :
    alternatives refs schemas v = schemas.map fun s => admits refs s v := by
  induction schemas with
  | nil => rfl
  | cons s rest ih => rw [alternatives, ih, List.map_cons]

/-- What stands under the keys of schemas is accepted if each value is. -/
theorem admitsMembers_iff {schemas members : List (String × Json)} :
    admitsMembers refs schemas members = true ↔
      ∀ p ∈ schemas, ∀ v, members.lookup p.1 = some v → admits refs p.2 v = true := by
  induction schemas with
  | nil => simp [admitsMembers]
  | cons p rest ih =>
    rw [admitsMembers, Bool.and_eq_true, ih, List.forall_mem_cons, Option.all_eq_true]

/-! ### Keyword by keyword -/

theorem holds_minLength {n : Int} {text : String} :
    holds refs named "minLength" (.number (.int n)) (.string text) = true ↔ n ≤ text.length :=
  decide_eq_true_iff

theorem holds_minItems {n : Int} {items : List Json} :
    holds refs named "minItems" (.number (.int n)) (.array items) = true ↔ n ≤ items.length :=
  decide_eq_true_iff

theorem holds_uniqueItems {items : List Json} :
    holds refs named "uniqueItems" (.bool true) (.array items) = true ↔
      Json.anySame items = false := by
  have apart : holds refs named "uniqueItems" (.bool true) (.array items) = !Json.anySame items :=
    rfl
  rw [apart, Bool.not_eq_true']

theorem holds_items {s : Json} {items : List Json} :
    holds refs named "items" s (.array items) = true ↔ ∀ u ∈ items, admits refs s u = true :=
  List.all_eq_true

theorem holds_required {key : String} {members : List (String × Json)} :
    holds refs named "required" (.array [.string key]) (.object members) = true ↔
      (members.lookup key).isSome = true := by
  have one : holds refs named "required" (.array [.string key]) (.object members) =
      ((members.lookup key).isSome && true) := rfl
  rw [one, Bool.and_true]

theorem holds_properties {schemas members : List (String × Json)} :
    holds refs named "properties" (.object schemas) (.object members) = true ↔
      ∀ p ∈ schemas, ∀ v, members.lookup p.1 = some v → admits refs p.2 v = true :=
  admitsMembers_iff

theorem holds_additionalProperties {s : Json} {members : List (String × Json)} :
    holds refs [] "additionalProperties" s (.object members) = true ↔
      ∀ m ∈ members, admits refs s m.2 = true :=
  List.all_eq_true

theorem holds_allOf {schemas : List Json} :
    holds refs named "allOf" (.array schemas) v = true ↔
      ∀ s ∈ schemas, admits refs s v = true := by
  have all : holds refs named "allOf" (.array schemas) v = (alternatives refs schemas v).all id :=
    rfl
  simp [all, alternatives_eq_map]

theorem holds_anyOf {schemas : List Json} :
    holds refs named "anyOf" (.array schemas) v = true ↔
      ∃ s ∈ schemas, admits refs s v = true := by
  have any : holds refs named "anyOf" (.array schemas) v = (alternatives refs schemas v).any id :=
    rfl
  simp [any, alternatives_eq_map]

/-- Of two schemas that accept no value both, one accepts it. -/
theorem holds_oneOf {s t : Json} (apart : admits refs s v = true → ¬ admits refs t v = true) :
    holds refs named "oneOf" (.array [s, t]) v = true ↔
      admits refs s v = true ∨ admits refs t v = true := by
  have one : holds refs named "oneOf" (.array [s, t]) v =
      decide ([admits refs s v, admits refs t v].count true = 1) := rfl
  rw [one]
  revert apart
  cases admits refs s v <;> cases admits refs t v <;> decide

end JsonSchema

open JsonSchema

namespace MetaSchema

/-! ### The parts of the schema -/

variable {refs : Reading} {v : Json}

theorem admits_reference (name : String) :
    admits refs (reference name) v = refs ("#/$defs/" ++ name) v := by
  rw [Bool.eq_iff_iff, reference, admits_plain (by simp), List.forall_mem_singleton]
  rfl

theorem admits_typed {type : String} {rules : List (String × Json)}
    (plain : ∀ p ∈ rules, p.1 ≠ "if" ∧ p.1 ≠ "then") :
    admits refs (typed type rules) v = true ↔ isOfType (.string type) v = true ∧ ∀ p ∈ rules,
      holds refs (namedProperties (("type", .string type) :: rules)) p.1 p.2 v = true := by
  have plain' : ∀ p ∈ ("type", Json.string type) :: rules, p.1 ≠ "if" ∧ p.1 ≠ "then" :=
    List.forall_mem_cons.2 ⟨by simp, plain⟩
  rw [typed, admits_plain plain', List.forall_mem_cons]
  rfl

theorem admits_texts : admits refs texts v = true ↔ v.IsText := by
  rw [texts, admits_typed (List.forall_mem_nil _)]
  cases v <;> simp [isOfType, Json.IsText]

theorem admits_names : admits refs names v = true ↔ v.IsNonEmptyText := by
  rw [names, admits_typed (by simp [atLeast]), List.forall_mem_singleton]
  cases v with
  | string s =>
    rw [atLeast, holds_minLength]
    simp [isOfType, Json.IsNonEmptyText, Nat.one_le_iff_ne_zero]
  | _ => simp [isOfType, Json.IsNonEmptyText]

theorem admits_filled {s : Json} :
    admits refs (filled s) v = true ↔
      ∃ items, v = .array items ∧ items ≠ [] ∧ ∀ u ∈ items, admits refs s u = true := by
  rw [filled, admits_typed (by simp [atLeast]), List.forall_mem_cons, List.forall_mem_singleton]
  cases v with
  | array items =>
    rw [atLeast, holds_items, holds_minItems]
    cases items <;> simp [isOfType]
  | _ => simp [isOfType]

theorem admits_nameList : admits refs nameList v = true ↔ nameListViolations v = [] := by
  rw [nameList, admits_typed (by simp), List.forall_mem_cons, List.forall_mem_singleton,
    nameListViolations_eq_nil]
  cases v with
  | array items =>
    rw [holds_items, holds_uniqueItems]
    simp only [admits_texts, Json.forall_isText_iff]
    constructor
    · rintro ⟨-, ⟨ss, rfl⟩, apart⟩
      exact ⟨ss, rfl, Json.repeats_strings.1 apart⟩
    · rintro ⟨ss, same, nodup⟩
      cases same
      exact ⟨rfl, ⟨ss, rfl⟩, Json.repeats_strings.2 nodup⟩
  | _ => simp [isOfType]

theorem admits_typeExpr : admits refs typeExpr v = true ↔ memberViolations "type" v = [] := by
  have apart : admits refs names v = true → ¬ admits refs (filled names) v = true := by
    rw [admits_names, admits_filled]
    rintro ⟨s, rfl, -⟩ ⟨items, same, -⟩
    cases same
  rw [typeExpr, admits_plain (by simp), List.forall_mem_singleton, holds_oneOf apart, admits_names,
    admits_filled, memberViolations_type]
  simp only [admits_names]

theorem admits_table {s : Json} :
    admits refs (typed "object" [("additionalProperties", s)]) v = true ↔
      ∃ members, v = .object members ∧ ∀ m ∈ members, admits refs s m.2 = true := by
  rw [admits_typed (by simp), List.forall_mem_singleton]
  cases v with
  | object members =>
    have named : namedProperties [("type", .string "object"), ("additionalProperties", s)] = [] :=
      rfl
    rw [named, holds_additionalProperties]
    simp [isOfType]
  | _ => simp [isOfType]

theorem admits_constant {s : String} :
    admits refs (.object [("const", .string s)]) v = true ↔ v = .string s := by
  rw [admits_plain (by simp), List.forall_mem_singleton]
  have same : holds refs (namedProperties [("const", .string s)]) "const" (.string s) v =
      (Json.string s).same false v := rfl
  rw [same]
  cases v with
  | string t => rw [Json.same, beq_iff_eq, Json.string.injEq, eq_comm]
  | _ => simp [Json.same]

/-! ### Nodes -/

/-- References stand for the nodes and lists inside a value. -/
structure Agrees (refs : Reading) (v : Json) : Prop where
  node : ∀ k u, v.Inside (k + 1) u → (refs "#/$defs/node" u = true ↔ Accepts u)
  nodeList : ∀ u, v.Part u → (refs "#/$defs/node_list" u = true ↔
    ∃ items, u = .array items ∧ items ≠ [] ∧ ∀ w ∈ items, Accepts w)
  nameList : ∀ u, v.Part u → (refs "#/$defs/name_list" u = true ↔ nameListViolations u = [])

/-- **Under each key of a node the schema asks what the check asks.** -/
theorem admits_slot {members : List (String × Json)} (agrees : Agrees refs (.object members))
    {p : String × Json} (mem : p ∈ slots) {u : Json} (found : members.lookup p.1 = some u) :
    admits refs p.2 u = true ↔ memberViolations p.1 u = [] := by
  have part : (Json.object members).Part u := ⟨p.1, mem_of_lookup found⟩
  simp only [slots, List.mem_cons, List.not_mem_nil, or_false] at mem
  rcases mem with rfl | rfl | rfl | rfl | rfl | rfl | rfl | rfl | rfl | rfl | rfl | rfl
  · exact admits_typeExpr
  · rw [admits_names, memberViolations_targetType (by decide)]
  · rw [admits_names, memberViolations_targetType (by decide)]
  · rw [admits_texts, memberViolations_text (by decide)]
  · rw [admits_texts, memberViolations_text (by decide)]
  · rw [admits_table, memberViolations_table]
    simp only [admits_reference]
    refine exists_congr fun nodes => and_congr_right ?_
    rintro rfl
    exact forall₂_congr fun m inner =>
      agrees.node 1 m.2 (.deeper part (.deeper ⟨m.1, inner⟩ (.here m.2)))
  · rw [admits_reference]
    exact agrees.node 0 u (.deeper part (.here u))
  · rw [admits_reference, memberViolations_nodes (by decide)]
    exact agrees.nodeList u part
  · rw [admits_reference, memberViolations_nodes (by decide)]
    exact agrees.nodeList u part
  · rw [admits_filled, memberViolations_enum]
    simp only [admits_texts]
  · rw [admits_reference]
    exact agrees.nameList u part
  · rw [admits_reference]
    exact agrees.nameList u part

theorem holds_typeIs {type : String} {members : List (String × Json)} :
    holds refs named (typeIs type).1 (typeIs type).2 (.object members) = true ↔
      ∀ v, members.lookup "type" = some v → v = .string type := by
  rw [typeIs, holds_properties, List.forall_mem_singleton]
  simp only [admits_constant]

theorem admits_requiring {key : String} {members : List (String × Json)} :
    admits refs (.object [requiring key]) (.object members) = true ↔
      (members.lookup key).isSome = true := by
  rw [requiring, admits_plain (by simp), List.forall_mem_singleton, holds_required]

/-- The rules that tie two slots together are those of the check. -/
theorem admits_ties {members : List (String × Json)}
    (type : (members.lookup "type").isSome = true) :
    (∀ s ∈ ties, admits refs s (.object members) = true) ↔
      (members.lookup "type" = some (.string "array") →
        (members.lookup "items").isSome = true ∨ (members.lookup "prefixItems").isSome = true) ∧
      ((members.lookup "oneOf").isSome = true →
        members.lookup "type" = some (.string "object")) := by
  obtain ⟨v, found⟩ := Option.isSome_iff_exists.1 type
  have array : admits refs (.object [typeIs "array", requiring "type"]) (.object members) = true ↔
      v = .string "array" := by
    rw [admits_plain (by simp [typeIs, requiring]), List.forall_mem_cons,
      List.forall_mem_singleton, holds_typeIs, requiring, holds_required]
    simp [found]
  have object : admits refs (.object [typeIs "object"]) (.object members) = true ↔
      v = .string "object" := by
    rw [admits_plain (by simp [typeIs]), List.forall_mem_singleton, holds_typeIs]
    simp [found]
  have elements : admits refs (.object [("anyOf", .array
      [.object [requiring "items"], .object [requiring "prefixItems"]])]) (.object members) = true ↔
      (members.lookup "items").isSome = true ∨ (members.lookup "prefixItems").isSome = true := by
    rw [admits_plain (by simp), List.forall_mem_singleton, holds_anyOf]
    simp only [List.exists_mem_cons_iff, List.not_mem_nil, false_and, exists_false, or_false,
      admits_requiring]
  rw [ties, List.forall_mem_cons, List.forall_mem_singleton, admits_conditional, admits_conditional,
    array, elements, admits_requiring, object, found]
  simp only [Option.some.injEq]

/-- **An object is accepted as a node where the check finds no violation.** -/
theorem admits_node_object {members : List (String × Json)}
    (agrees : Agrees refs (.object members)) :
    admits refs node (.object members) = true ↔ Accepts (.object members) := by
  have member : (∀ p ∈ slots, ∀ u, members.lookup p.1 = some u → admits refs p.2 u = true) ↔
      ∀ key ∈ keys, ∀ u, members.lookup key = some u → memberViolations key u = [] := by
    have known : slots.map Prod.fst = keys := rfl
    rw [← known, List.forall_mem_map]
    exact forall₂_congr fun p mem => forall₂_congr fun u found => admits_slot agrees mem found
  rw [node, admits_typed (by simp [requiring]), accepts_object, List.forall_mem_cons,
    List.forall_mem_cons, List.forall_mem_singleton, requiring, holds_required, holds_properties,
    member, holds_allOf]
  constructor
  · rintro ⟨-, type, fine, tied⟩
    obtain ⟨array, oneOf⟩ := (admits_ties type).1 tied
    exact ⟨type, fine, array, oneOf⟩
  · rintro ⟨type, fine, array, oneOf⟩
    exact ⟨rfl, type, fine, (admits_ties type).2 ⟨array, oneOf⟩⟩

/-- What is accepted as a node breaks no rule, and nothing else does. -/
theorem admits_node (agrees : Agrees refs v) : admits refs node v = true ↔ Accepts v := by
  cases v with
  | object members => exact admits_node_object agrees
  | _ =>
    rw [node, admits_typed (by simp [requiring])]
    simp [isOfType, Accepts, violations]

/-! ### References that are followed -/

/-- **Followed often enough, the references in the schema stand for what the check asks.** -/
theorem reading_node {n : Nat} (enough : v.size ≤ n) :
    reading document n "#/$defs/node" v = true ↔ Accepts v := by
  have node : target? document "#/$defs/node" = some node := rfl
  have list : target? document "#/$defs/node_list" = some nodeList := rfl
  have names : target? document "#/$defs/name_list" = some nameList := rfl
  induction v using Json.induction generalizing n with
  | step v ih =>
    obtain ⟨n, rfl⟩ := Nat.exists_eq_add_of_lt (Nat.lt_of_lt_of_le v.size_pos enough)
    rw [Nat.zero_add, reading, node, Option.any_some]
    refine admits_node ⟨fun k u inside => ih k u inside ?_, fun u part => ?_, fun u part => ?_⟩
    · have smaller := Json.size_lt_of_inside inside
      omega
    all_goals
      have smaller := Json.size_lt_of_part part
      obtain ⟨n, rfl⟩ : ∃ m, n = m + 1 := ⟨n - 1, by have := u.size_pos; omega⟩
    · rw [reading, list, Option.any_some, nodeList, admits_filled]
      simp only [admits_reference]
      refine exists_congr fun items => and_congr_right ?_
      rintro rfl
      refine and_congr_right fun _ => forall₂_congr fun w mem => ?_
      refine ih 1 w (.deeper part (.deeper mem (.here w))) ?_
      have smaller' := Json.size_lt_of_part (v := .array items) mem
      omega
    · rw [reading, names, Option.any_some, admits_nameList]

/-- **The bundled schema accepts what the check accepts.**  It does so as soon as its references are
followed as often as there are values in the document, and following them further changes
nothing. -/
theorem document_admits_iff {n : Nat} (enough : v.size ≤ n) :
    admits (reading document n) document v = true ↔ Validator.metaSchema v = .ok () := by
  have keywords : admits (reading document n) document v = true ↔
      reading document n "#/$defs/node" v = true := by
    rw [document, admits_plain (by simp)]
    simp only [List.forall_mem_cons]
    constructor
    · exact fun all => all.2.2.1
    · exact fun follows => ⟨rfl, rfl, follows, rfl, List.forall_mem_nil _⟩
  rw [keywords, reading_node enough, metaSchema_eq_ok]

end MetaSchema
end SchemaModel
