import SchemaModel.Proofs.Grammar

/-!
# The grammar of documents

The check of documents lists the rules that a document breaks.  The documents that break none are
the smallest set that the rules of the grammar describe: an object whose values have the right form
and whose nodes, in the four slots that hold any, are in the set again.

* `MetaSchema.ValueRules` — what a node asks of the values under its keys;
* `MetaSchema.Valid` — the documents of the grammar;
* `MetaSchema.fits_iff` — the rules that the check goes through are those of the grammar;
* `accepted_documents_are_valid` — what the check accepts.
-/

namespace SchemaModel

namespace MetaSchema

/-- What a node asks of the values under its keys, the nodes in them apart.  There are no other
required keys than the type and no rules for other keys. -/
structure ValueRules (find : String → Option Json) : Prop where
  type : ∃ v, find "type" = some v ∧
    (v.IsNonEmptyText ∨ ∃ names, v = .array names ∧ names ≠ [] ∧ ∀ u ∈ names, u.IsNonEmptyText)
  targetType : ∀ key ∈ ["target_type", "cpp_type"], ∀ v, find key = some v → v.IsNonEmptyText
  texts : ∀ key ∈ ["title", "description"], ∀ v, find key = some v → v.IsText
  properties : ∀ v, find "properties" = some v → ∃ nodes, v = .object nodes
  lists : ∀ key ∈ ["prefixItems", "oneOf"], ∀ v, find key = some v →
    ∃ nodes, v = .array nodes ∧ nodes ≠ []
  enum : ∀ v, find "enum" = some v →
    ∃ values, v = .array values ∧ values ≠ [] ∧ ∀ u ∈ values, u.IsText
  declaredFields : ∀ key ∈ ["declared_fields", "cpp_fields"], ∀ v, find key = some v →
    ∃ names, v = .array names ∧ (∀ u ∈ names, u.IsText) ∧ names.Nodup
  array : find "type" = some (.string "array") → find "items" ≠ none ∨ find "prefixItems" ≠ none
  oneOf : find "oneOf" ≠ none → find "type" = some (.string "object")

/-- The documents of the grammar: objects that keep the rules and whose nodes are documents. -/
inductive Valid : Json → Prop
  | node {members : List (String × Json)} (values : ValueRules fun key => members.lookup key)
      (properties : ∀ nodes, members.lookup "properties" = some (.object nodes) →
        ∀ m ∈ nodes, Valid m.2)
      (items : ∀ v, members.lookup "items" = some v → Valid v)
      (lists : ∀ key ∈ ["prefixItems", "oneOf"], ∀ nodes,
        members.lookup key = some (.array nodes) → ∀ v ∈ nodes, Valid v) :
      Valid (.object members)

/-! ### The rules for values -/

/-- The elements of an array are all strings of a kind if the array is that of a list of such
strings. -/
theorem exists_texts_iff {P : String → Prop} {v : Json} :
    (∃ items, v = .array items ∧ items ≠ [] ∧ ∀ u ∈ items, ∃ s, u = .string s ∧ P s) ↔
      ∃ ss : List String, v = .array (ss.map .string) ∧ ss ≠ [] ∧ ∀ s ∈ ss, P s := by
  constructor
  · rintro ⟨items, rfl, nonempty, each⟩
    obtain ⟨ss, rfl, fine⟩ := Json.forall_string_iff.1 each
    exact ⟨ss, rfl, by simpa using nonempty, fine⟩
  · rintro ⟨ss, rfl, nonempty, each⟩
    exact ⟨_, rfl, by simpa using nonempty, Json.forall_string_iff.2 ⟨ss, rfl, each⟩⟩

variable {v : Json} {key : String}

theorem memberViolations_type :
    memberViolations "type" v = [] ↔ v.IsNonEmptyText ∨
      ∃ names, v = .array names ∧ names ≠ [] ∧ ∀ u ∈ names, u.IsNonEmptyText := by
  have texts := exists_texts_iff (P := (· ≠ "")) (v := v)
  exact typeViolations_eq_nil.trans (or_congr_right texts.symm)

theorem memberViolations_targetType (known : key ∈ ["target_type", "cpp_type"]) :
    memberViolations key v = [] ↔ v.IsNonEmptyText := by
  have rule : memberViolations key v = nameViolations v := by
    revert key
    simp only [List.forall_mem_cons]
    exact ⟨rfl, rfl, List.forall_mem_nil _⟩
  rw [rule, nameViolations_eq_nil]

theorem memberViolations_text (known : key ∈ ["title", "description"]) :
    memberViolations key v = [] ↔ v.IsText := by
  have rule : memberViolations key v = textViolations v := by
    revert key
    simp only [List.forall_mem_cons]
    exact ⟨rfl, rfl, List.forall_mem_nil _⟩
  rw [rule, textViolations_eq_nil]

theorem memberViolations_enum :
    memberViolations "enum" v = [] ↔
      ∃ values, v = .array values ∧ values ≠ [] ∧ ∀ u ∈ values, u.IsText := by
  have texts := exists_texts_iff (P := fun _ => True) (v := v)
  simp only [and_true, implies_true] at texts
  exact enumViolations_eq_nil.trans texts.symm

theorem memberViolations_declaredFields (known : key ∈ ["declared_fields", "cpp_fields"]) :
    memberViolations key v = [] ↔
      ∃ names, v = .array names ∧ (∀ u ∈ names, u.IsText) ∧ names.Nodup := by
  have rule : memberViolations key v = nameListViolations v := by
    revert key
    simp only [List.forall_mem_cons]
    exact ⟨rfl, rfl, List.forall_mem_nil _⟩
  have apart : ∀ ss : List String, (ss.map Json.string).Nodup ↔ ss.Nodup :=
    fun ss => List.nodup_map_iff fun _ _ same => Json.string.inj same
  rw [rule, nameListViolations_eq_nil]
  constructor
  · rintro ⟨ss, rfl, nodup⟩
    exact ⟨_, rfl, Json.forall_isText_iff.2 ⟨ss, rfl⟩, (apart ss).2 nodup⟩
  · rintro ⟨names, rfl, each, nodup⟩
    obtain ⟨ss, rfl⟩ := Json.forall_isText_iff.1 each
    exact ⟨ss, rfl, (apart ss).1 nodup⟩

theorem memberViolations_nodes (known : key ∈ ["prefixItems", "oneOf"]) :
    memberViolations key v = [] ↔
      ∃ nodes, v = .array nodes ∧ nodes ≠ [] ∧ ∀ w ∈ nodes, Accepts w :=
  memberViolations_list (by simpa using known)

/-! ### The rules for nodes -/

/-- **The rules that a node is checked for are those of the grammar**, with acceptance for the nodes
in it. -/
theorem fits_iff {find : String → Option Json} :
    Fits find ↔ ValueRules find ∧
      (∀ nodes, find "properties" = some (.object nodes) → ∀ m ∈ nodes, Accepts m.2) ∧
      (∀ v, find "items" = some v → Accepts v) ∧
      ∀ key ∈ ["prefixItems", "oneOf"], ∀ nodes, find key = some (.array nodes) →
        ∀ v ∈ nodes, Accepts v := by
  constructor
  · rintro ⟨type, member, array, oneOf⟩
    have rule : ∀ {group : List String}, (∀ key ∈ group, key ∈ keys) → ∀ key ∈ group, ∀ v,
        find key = some v → memberViolations key v = [] :=
      fun sub key known v hv => member key (sub key known) v hv
    refine ⟨⟨?_, ?_, ?_, ?_, ?_, ?_, ?_, ?_, ?_⟩, ?_, ?_, ?_⟩
    · obtain ⟨v, hv⟩ := Option.isSome_iff_exists.1 type
      exact ⟨v, hv, memberViolations_type.1 (member "type" (by decide) v hv)⟩
    · exact fun key known v hv =>
        (memberViolations_targetType known).1 (rule (by decide) key known v hv)
    · exact fun key known v hv => (memberViolations_text known).1 (rule (by decide) key known v hv)
    · intro v hv
      obtain ⟨nodes, same, -⟩ := memberViolations_table.1 (member "properties" (by decide) v hv)
      exact ⟨nodes, same⟩
    · intro key known v hv
      obtain ⟨nodes, same, nonempty, -⟩ :=
        (memberViolations_nodes known).1 (rule (by decide) key known v hv)
      exact ⟨nodes, same, nonempty⟩
    · exact fun v hv => memberViolations_enum.1 (member "enum" (by decide) v hv)
    · exact fun key known v hv =>
        (memberViolations_declaredFields known).1 (rule (by decide) key known v hv)
    · simpa only [Option.isSome_iff_ne_none] using array
    · simpa only [Option.isSome_iff_ne_none] using oneOf
    · intro nodes hnodes
      obtain ⟨_, same, each⟩ := memberViolations_table.1 (member "properties" (by decide) _ hnodes)
      cases same
      exact each
    · exact fun v hv => member "items" (by decide) v hv
    · intro key known nodes hnodes
      obtain ⟨_, same, -, each⟩ :=
        (memberViolations_nodes known).1 (rule (by decide) key known _ hnodes)
      cases same
      exact each
  · rintro ⟨rules, properties, items, lists⟩
    refine ⟨?_, fun key known v hv => ?_, ?_, ?_⟩
    · obtain ⟨v, hv, -⟩ := rules.type
      rw [hv]
      rfl
    · have groups : ∀ key ∈ keys, key = "type" ∨ key ∈ ["target_type", "cpp_type"] ∨
          key ∈ ["title", "description"] ∨ key = "properties" ∨ key = "items" ∨
          key ∈ ["prefixItems", "oneOf"] ∨ key = "enum" ∨
          key ∈ ["declared_fields", "cpp_fields"] := by
        decide
      rcases groups key known with rfl | target | text | rfl | rfl | list | rfl | fields
      · obtain ⟨_, hv', fine⟩ := rules.type
        cases hv.symm.trans hv'
        exact memberViolations_type.2 fine
      · exact (memberViolations_targetType target).2 (rules.targetType key target v hv)
      · exact (memberViolations_text text).2 (rules.texts key text v hv)
      · obtain ⟨nodes, rfl⟩ := rules.properties v hv
        exact memberViolations_table.2 ⟨nodes, rfl, properties nodes hv⟩
      · exact items v hv
      · obtain ⟨nodes, rfl, nonempty⟩ := rules.lists key list v hv
        exact (memberViolations_nodes list).2 ⟨nodes, rfl, nonempty, lists key list nodes hv⟩
      · exact memberViolations_enum.2 (rules.enum v hv)
      · exact (memberViolations_declaredFields fields).2 (rules.declaredFields key fields v hv)
    · simpa only [Option.isSome_iff_ne_none] using rules.array
    · simpa only [Option.isSome_iff_ne_none] using rules.oneOf

/-- **What is accepted as a node is what the grammar says.** -/
theorem accepts_iff_valid {v : Json} : Accepts v ↔ Valid v := by
  constructor
  · intro accepted
    induction v using Json.induction with
    | step v ih =>
      obtain ⟨members, rfl⟩ := accepted.exists_object
      obtain ⟨rules, properties, items, lists⟩ := fits_iff.1 (accepts_object.1 accepted)
      have held : ∀ {key u}, members.lookup key = some u → (Json.object members).Part u :=
        fun found => ⟨_, mem_of_lookup found⟩
      refine .node rules (fun nodes found m mem => ?_) (fun u found => ?_)
        fun key known nodes found u mem => ?_
      · exact ih 1 m.2 (.deeper (held found) (.deeper ⟨m.1, mem⟩ (.here _)))
          (properties nodes found m mem)
      · exact ih 0 u (.deeper (held found) (.here u)) (items u found)
      · exact ih 1 u (.deeper (held found) (.deeper mem (.here u)))
          (lists key known nodes found u mem)
  · intro valid
    induction valid with
    | node rules _ _ _ properties items lists =>
      exact accepts_object.2 (fits_iff.2 ⟨rules, properties, items, lists⟩)

end MetaSchema

/-- **The check of documents accepts exactly the documents of the grammar.**  Every node of a
document of the grammar is itself one. -/
theorem accepted_documents_are_valid (v : Json) :
    (Validator.metaSchema v = .ok () ↔ MetaSchema.Valid v) ∧
    (v.HasDistinctKeys → MetaSchema.Valid v → ∀ bs w, Walk Json.Child v bs w →
      MetaSchema.Valid w ∧ Validator.metaSchema w = .ok ()) := by
  have accepted_iff : ∀ w, Validator.metaSchema w = .ok () ↔ MetaSchema.Valid w :=
    fun w => MetaSchema.metaSchema_eq_ok.trans MetaSchema.accepts_iff_valid
  refine ⟨accepted_iff v, fun distinct valid bs w walk => ?_⟩
  have nodes : MetaSchema.Valid w := by
    induction walk with
    | here => exact valid
    | down child _ ih =>
      have accepted := (MetaSchema.accepts_iff_valid.2 valid).child distinct child
      exact ih (distinct.child child) (MetaSchema.accepts_iff_valid.1 accepted)
  exact ⟨nodes, (accepted_iff w).2 nodes⟩

/-- A document with a list of choices and a key that the grammar does not know. -/
def shelvesDocument : Json :=
  .object [("type", .string "object"), ("cpp_fields", .array [.string "titles"]),
    ("properties", .object [("titles", .object [("note", .null), ("type", .string "array"),
      ("items", .object [("type", .array [.string "string", .string "integer"])])])])]

theorem shelvesDocument_valid :
    shelvesDocument.HasDistinctKeys ∧ MetaSchema.Valid shelvesDocument ∧
      (∃ w, Walk Json.Child shelvesDocument [.property "titles", .items] w ∧
        Validator.metaSchema w = .ok ()) ∧
      ¬ MetaSchema.Valid (.object [("type", .string "array")]) := by
  have distinct : shelvesDocument.HasDistinctKeys := by
    simp [shelvesDocument, Json.HasDistinctKeys, Json.MembersHaveDistinctKeys,
      Json.ItemsHaveDistinctKeys]
  have valid : MetaSchema.Valid shelvesDocument :=
    (accepted_documents_are_valid shelvesDocument).1.1 rfl
  have walk : Walk Json.Child shelvesDocument [.property "titles", .items] _ :=
    .down ⟨_, List.mem_of_getElem? (i := 2) rfl, List.mem_of_getElem? (i := 0) rfl⟩
      (.down (List.mem_of_getElem? (i := 2) rfl) (.here _))
  refine ⟨distinct, valid, ⟨_, walk, ?_⟩, fun refused => ?_⟩
  · exact ((accepted_documents_are_valid shelvesDocument).2 distinct valid _ _ walk).2
  · cases (accepted_documents_are_valid _).1.2 refused

end SchemaModel
