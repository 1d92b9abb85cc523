import SchemaModel.Proofs.Acceptance

/-!
# What acceptance says of a node

The grammar of documents asks more of a node than its reading does: lists may not be empty, no name
may be declared twice, an array has elements of some kind, and only an object has alternatives.  A
node that is decoded from an accepted document keeps these rules, whichever keys it was written
with.

* `Json.Describes.filled` — a slot of the node is empty or filled with an accepted value;
* `Schema.KeepsRules` — the rules, as they show in a node;
* `Json.Describes.keepsRules` — a node of an accepted document keeps them.
-/

namespace SchemaModel

/-! ### Accepted values and what they read as -/

namespace MetaSchema

theorem nodup_of_nameList {v : Json} {ss : List String} (h : nameListViolations v = [])
    (read : Decode.strings v = .ok ss) : ss.Nodup := by
  obtain ⟨names, listed, nodup⟩ := nameListViolations_eq_nil.1 h
  cases read.symm.trans (Decode.strings_eq_ok.2 listed)
  exact nodup

theorem ne_nil_of_enum {v : Json} {ss : List String} (h : enumViolations v = [])
    (read : Decode.strings v = .ok ss) : ss ≠ [] := by
  obtain ⟨values, listed, nonempty⟩ := enumViolations_eq_nil.1 h
  cases read.symm.trans (Decode.strings_eq_ok.2 listed)
  exact nonempty

theorem ne_nil_of_type {v : Json} {names : List String} (h : typeViolations v = [])
    (read : Schema.typeExpr v = .ok (.choice names)) : names ≠ [] := by
  rcases typeViolations_eq_nil.1 h with ⟨n, rfl, -⟩ | ⟨ns, rfl, nonempty, -⟩
  · cases read
  · cases read.symm.trans (Schema.typeExpr_eq_ok.2 (.inr ⟨ns, rfl, rfl⟩))
    exact nonempty

theorem ne_nil_of_nodes {key : String} (hkey : key = "prefixItems" ∨ key = "oneOf") {v : Json}
    {nodes : List Schema} (h : memberViolations key v = [])
    (read : Schema.unlessNull v (Schema.readings v).nodes = .ok (some nodes)) : nodes ≠ [] := by
  obtain ⟨items, rfl, nonempty, -⟩ := (memberViolations_list hkey).1 h
  have decoded := Schema.nodeElements_eq_ok.1 (Schema.unlessNull_eq_some.1 read).2
  rintro rfl
  cases decoded
  exact nonempty rfl

end MetaSchema

/-! ### The slots of an accepted node -/

/-- The rules of the grammar, as they show in a node. -/
structure Schema.KeepsRules (s : Schema) : Prop where
  declared : ∀ names, s.declaredFields = some names → names.Nodup
  values : ∀ values, s.enum = some values → values ≠ []
  choices : ∀ names, s.type = .choice names → names ≠ []
  elements : ∀ nodes, s.prefixItems = some nodes → nodes ≠ []
  alternatives : ∀ nodes, s.oneOf = some nodes → nodes ≠ []
  object : s.oneOf.isSome → s.type = .name "object"
  array : s.type = .name "array" → s.items.isSome ∨ s.prefixItems.isSome

namespace Json.Describes

open MetaSchema

variable {members : List (String × Json)} {s : Schema}

/-- **A slot of an accepted node is empty or holds what an accepted value reads as.** -/
theorem filled (h : (Json.object members).Describes s) (slot : Slot) :
    slot.absent? = some (s.get slot) ∨
      ∃ key u, (key, u) ∈ members ∧ Slot.ofKey? key = some slot ∧ memberViolations key u = [] ∧
        slot.read u = .ok (s.get slot) := by
  have gives := Schema.ofJson_gives h.decodes slot
  cases hl : (Json.object members).slots.lookup slot with
  | none =>
    rw [hl] at gives
    exact .inl gives
  | some u =>
    rw [hl] at gives
    obtain ⟨key, mem, hkey⟩ := Json.mem_slots_object.1 (mem_of_lookup hl)
    exact .inr ⟨key, u, mem, hkey, h.accepted.member_of_ofKey? h.distinct.1 hkey mem, gives⟩

/-- A slot that has one key only and is not empty holds what the value under the key reads as. -/
theorem filled_of_key (h : (Json.object members).Describes s) (slot : Slot)
    (single : slot ≠ .targetType ∧ slot ≠ .declaredFields)
    (nonempty : slot.absent? ≠ some (s.get slot)) :
    ∃ u, members.lookup slot.key = some u ∧ memberViolations slot.key u = [] ∧
      slot.read u = .ok (s.get slot) := by
  rcases h.filled slot with absent | ⟨key, u, mem, hkey, fine, read⟩
  · exact absurd absent nonempty
  · rcases Slot.ofKey?_eq_some.1 hkey with rfl | ⟨same, -⟩ | ⟨same, -⟩
    · exact ⟨u, lookup_of_mem h.distinct.1 mem, fine, read⟩
    · exact absurd same single.1
    · exact absurd same single.2

theorem type_value (h : (Json.object members).Describes s) :
    ∃ u, members.lookup "type" = some u ∧ typeViolations u = [] ∧
      Schema.typeExpr u = .ok s.type :=
  h.filled_of_key .type (by decide) fun absent => by cases absent

theorem prefixItems_value (h : (Json.object members).Describes s) {nodes : List Schema}
    (elements : s.prefixItems = some nodes) :
    ∃ u, memberViolations "prefixItems" u = [] ∧
      Schema.unlessNull u (Schema.readings u).nodes = .ok (some nodes) := by
  obtain ⟨u, -, fine, read⟩ := h.filled_of_key .prefixItems (by decide) fun absent => by
    cases (Option.some.inj absent).trans elements
  exact ⟨u, fine, elements ▸ read⟩

theorem oneOf_value (h : (Json.object members).Describes s) {nodes : List Schema}
    (alternatives : s.oneOf = some nodes) :
    ∃ u, members.lookup "oneOf" = some u ∧ memberViolations "oneOf" u = [] ∧
      Schema.unlessNull u (Schema.readings u).nodes = .ok (some nodes) := by
  obtain ⟨u, found, fine, read⟩ := h.filled_of_key .oneOf (by decide) fun absent => by
    cases (Option.some.inj absent).trans alternatives
  exact ⟨u, found, fine, alternatives ▸ read⟩

/-- A node has a single type exactly if its document names it. -/
theorem type_eq_name (h : (Json.object members).Describes s) {n : String} :
    s.type = .name n ↔ members.lookup "type" = some (.string n) := by
  obtain ⟨u, found, -, read⟩ := h.type_value
  rw [found, Option.some.injEq]
  rcases Schema.typeExpr_eq_ok.1 read with ⟨m, rfl, same⟩ | ⟨names, rfl, same⟩
  · rw [same, TypeExpr.name.injEq, Json.string.injEq]
  · simp [same]

theorem items_or_prefixItems (h : (Json.object members).Describes s)
    (array : s.type = .name "array") : s.items.isSome ∨ s.prefixItems.isSome := by
  rcases h.accepted.array_elements (h.type_eq_name.1 array) with ⟨u, mem⟩ | ⟨u, mem⟩
  · obtain ⟨c, child, -⟩ := h.child (b := .items) mem
    exact .inl (Option.isSome_iff_exists.2 ⟨c, child⟩)
  · have known : "prefixItems" ∈ keys := by decide
    have fine := h.accepted.member h.distinct.1 known mem
    obtain ⟨items, rfl, nonempty, -⟩ := (memberViolations_list (.inl rfl)).1 fine
    obtain ⟨first, rest, rfl⟩ := List.exists_cons_of_ne_nil nonempty
    obtain ⟨c, ⟨nodes, hnodes, -⟩, -⟩ := h.child (b := .prefixItem 0) ⟨_, mem, rfl⟩
    exact .inr (Option.isSome_iff_exists.2 ⟨nodes, hnodes⟩)

/-- **A node of an accepted document keeps the rules of the grammar.** -/
theorem keepsRules {v : Json} (h : v.Describes s) : s.KeepsRules := by
  obtain ⟨members, rfl⟩ := h.accepted.exists_object
  refine ⟨?_, ?_, ?_, ?_, ?_, ?_, h.items_or_prefixItems⟩
  · intro names declares
    rcases h.filled .declaredFields with absent | ⟨key, u, -, hkey, fine, read⟩
    · cases (Option.some.inj absent).trans declares
    · -- the slot has two keys, under which the grammar asks the same
      have fine : nameListViolations u = [] := by
        rcases Slot.ofKey?_eq_some.1 hkey with rfl | ⟨⟨⟩, -⟩ | ⟨-, rfl⟩ <;> exact fine
      change Decode.optional Decode.strings u = .ok s.declaredFields at read
      rw [declares] at read
      exact nodup_of_nameList fine (Decode.optional_eq_some.1 read).2
  · intro values lists
    obtain ⟨u, -, fine, read⟩ := h.filled_of_key .enum (by decide) fun absent => by
      cases (Option.some.inj absent).trans lists
    change Decode.optional Decode.strings u = .ok s.enum at read
    rw [lists] at read
    exact ne_nil_of_enum fine (Decode.optional_eq_some.1 read).2
  · intro names choice
    obtain ⟨u, -, fine, read⟩ := h.type_value
    exact ne_nil_of_type fine (choice ▸ read)
  · intro nodes elements
    obtain ⟨u, fine, read⟩ := h.prefixItems_value elements
    exact ne_nil_of_nodes (.inl rfl) fine read
  · intro nodes alternatives
    obtain ⟨u, -, fine, read⟩ := h.oneOf_value alternatives
    exact ne_nil_of_nodes (.inr rfl) fine read
  · intro present
    obtain ⟨nodes, alternatives⟩ := Option.isSome_iff_exists.1 present
    obtain ⟨u, filled, -⟩ := h.oneOf_value alternatives
    obtain ⟨t, found, -⟩ := h.type_value
    obtain rfl := h.accepted.oneOf_object filled found
    exact h.type_eq_name.2 found

end Json.Describes

end SchemaModel
