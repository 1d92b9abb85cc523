import SchemaModel.Proofs.Decoding
import SchemaModel.Proofs.Documents
import SchemaModel.Proofs.ValueRules

/-!
# What the grammar accepts

The grammar of documents lists the rules that a node breaks.  An object breaks none as a node
exactly if what is found under its keys keeps the rules, whatever the order of the keys and whatever
stands under unknown ones; a list or a table of nodes is accepted if all its nodes are.

* `MetaSchema.Accepts` — a value breaks no rule as a node;
* `MetaSchema.memberViolations` — the rules for the value under a key;
  `MetaSchema.memberViolations_list`, `MetaSchema.memberViolations_table` — those for lists and
  tables of nodes;
* `MetaSchema.Fits` — the rules for a node, as they show in a look-up of keys;
* `MetaSchema.accepts_object` — when an object is accepted as a node;
* `MetaSchema.Accepts.child` — the child nodes of an accepted node are accepted.
-/

namespace SchemaModel

namespace MetaSchema

/-- A value breaks no rule as a node. -/
def Accepts (v : Json) : Prop := violations v = []

theorem metaSchema_eq_ok {d : Json} : Validator.metaSchema d = .ok () ↔ Accepts d := by
  unfold Validator.metaSchema Accepts
  cases violations d <;> simp

/-- The rules that the value under a key breaks by itself. -/
def memberViolations (key : String) (v : Json) : List Violation :=
  ((slotViolations [(key, v)]).headD (key, [])).2

theorem slotViolations_cons (key : String) (v : Json) (rest : List (String × Json)) :
    slotViolations ((key, v) :: rest) = (key, memberViolations key v) :: slotViolations rest := by
  rw [memberViolations, slotViolations.eq_def ((key, v) :: rest), slotViolations.eq_def [(key, v)]]
  rfl

theorem lookup_slotViolations (members : List (String × Json)) (key : String) :
    (slotViolations members).lookup key = (members.lookup key).map (memberViolations key) := by
  induction members with
  | nil => rfl
  | cons m rest ih =>
    obtain ⟨k, v⟩ := m
    rw [slotViolations_cons, List.lookup_cons, List.lookup_cons, ih]
    by_cases same : key = k
    · rw [same, beq_self_eq_true]
      rfl
    · rw [beq_false_of_ne same]

/-! ### Lists and tables of nodes -/

theorem listViolations_eq_nil {items : List Json} :
    listViolations items = [] ↔ ∀ v ∈ items, Accepts v := by
  induction items with
  | nil => simp [listViolations]
  | cons v rest ih =>
    rw [listViolations, List.append_eq_nil_iff, ih, List.forall_mem_cons]
    rfl

theorem tableViolations_eq_nil {members : List (String × Json)} :
    tableViolations members = [] ↔ ∀ m ∈ members, Accepts m.2 := by
  induction members with
  | nil => simp [tableViolations]
  | cons m rest ih =>
    obtain ⟨name, v⟩ := m
    rw [tableViolations, List.append_eq_nil_iff, ih, List.forall_mem_cons]
    rfl

/-- A list of nodes is accepted if it is not empty and all its elements are. -/
theorem memberViolations_list {key : String} (hkey : key = "prefixItems" ∨ key = "oneOf")
    {v : Json} :
    memberViolations key v = [] ↔
      ∃ items, v = .array items ∧ items ≠ [] ∧ ∀ w ∈ items, Accepts w := by
  have rule : ∀ first rest, memberViolations key (.array (first :: rest)) =
      listViolations (first :: rest) := by
    rcases hkey with rfl | rfl <;> exact fun _ _ => rfl
  constructor
  · intro fine
    cases v with
    | array items =>
      cases items with
      | nil => rcases hkey with rfl | rfl <;> cases fine
      | cons first rest =>
        rw [rule] at fine
        exact ⟨_, rfl, List.cons_ne_nil _ _, listViolations_eq_nil.1 fine⟩
    | _ => rcases hkey with rfl | rfl <;> cases fine
  · rintro ⟨items, rfl, nonempty, each⟩
    cases items with
    | nil => exact absurd rfl nonempty
    | cons first rest => exact (rule first rest).trans (listViolations_eq_nil.2 each)

/-- A table of nodes is accepted if all its values are. -/
theorem memberViolations_table {v : Json} :
    memberViolations "properties" v = [] ↔
      ∃ members, v = .object members ∧ ∀ m ∈ members, Accepts m.2 := by
  constructor
  · intro fine
    cases v with
    | object members => exact ⟨members, rfl, tableViolations_eq_nil.1 fine⟩
    | _ => cases fine
  · rintro ⟨members, rfl, each⟩
    exact tableViolations_eq_nil.2 each

/-! ### Nodes -/

/-- The two keys of a slot ask the same of a value. -/
theorem memberViolations_of_ofKey? {key : String} {slot : Slot}
    (hkey : Slot.ofKey? key = some slot) :
    memberViolations key = memberViolations slot.key := by
  rcases Slot.ofKey?_eq_some.1 hkey with rfl | ⟨rfl, rfl⟩ | ⟨rfl, rfl⟩ <;> rfl

/-- The rules of the grammar for a node, by what is found under its keys. -/
structure Fits (find : String → Option Json) : Prop where
  type : (find "type").isSome
  member : ∀ key ∈ keys, ∀ v, find key = some v → memberViolations key v = []
  array : find "type" = some (.string "array") →
    (find "items").isSome ∨ (find "prefixItems").isSome
  oneOf : (find "oneOf").isSome → find "type" = some (.string "object")

theorem arrayViolations_eq_nil {members : List (String × Json)} :
    arrayViolations members = [] ↔ (members.lookup "type" = some (.string "array") →
      (members.lookup "items").isSome ∨ (members.lookup "prefixItems").isSome) := by
  rw [arrayViolations]
  split
  · rename_i array
    rw [array]
    cases (members.lookup "items").isSome <;> cases (members.lookup "prefixItems").isSome <;> simp
  · rename_i other
    exact ⟨fun _ array => (other array).elim, fun _ => rfl⟩

theorem oneOfViolations_eq_nil {members : List (String × Json)} {v : Json}
    (type : members.lookup "type" = some v) :
    oneOfViolations members = [] ↔
      ((members.lookup "oneOf").isSome → v = .string "object") := by
  rw [oneOfViolations, type]
  cases members.lookup "oneOf" with
  | none => simp
  | some u =>
    split
    · rename_i object
      simpa using object
    · rename_i other _ same
      cases same
      simp only [reduceCtorEq, Option.isSome_some, true_imp_iff, false_iff]
      exact other
    · rename_i none
      exact absurd rfl (none u v rfl)

/-- **An object is accepted as a node exactly if what is found under its keys fits.** -/
theorem accepts_object {members : List (String × Json)} :
    Accepts (.object members) ↔ Fits (fun key => members.lookup key) := by
  have slots : (keys.flatMap fun key => ((slotViolations members).lookup key).getD []) = [] ↔
      ∀ key ∈ keys, ∀ v, members.lookup key = some v → memberViolations key v = [] := by
    rw [List.flatMap_eq_nil_iff]
    refine forall₂_congr fun key _ => ?_
    rw [lookup_slotViolations]
    cases members.lookup key <;> simp
  rw [Accepts, violations]
  simp only [List.append_eq_nil_iff, slots, arrayViolations_eq_nil]
  constructor
  · rintro ⟨⟨⟨typed, fine⟩, array⟩, oneOf⟩
    cases htype : members.lookup "type" with
    | none =>
      rw [htype] at typed
      cases typed
    | some v =>
      have object := (oneOfViolations_eq_nil htype).1 oneOf
      exact ⟨by rw [htype]; rfl, fine, array, fun present => by rw [htype, object present]⟩
  · rintro ⟨typed, fine, array, oneOf⟩
    obtain ⟨v, hv⟩ := Option.isSome_iff_exists.1 typed
    refine ⟨⟨⟨if_pos typed, fine⟩, array⟩, (oneOfViolations_eq_nil hv).2 fun present => ?_⟩
    exact Option.some.inj (hv.symm.trans (oneOf present))

namespace Accepts

theorem exists_object {v : Json} (h : Accepts v) : ∃ members, v = .object members := by
  cases v with
  | object members => exact ⟨members, rfl⟩
  | _ => simp [Accepts, violations] at h

theorem ne_null {v : Json} (h : Accepts v) : v ≠ .null := by
  obtain ⟨members, rfl⟩ := h.exists_object
  intro same
  cases same

variable {members : List (String × Json)}

theorem type_present (h : Accepts (.object members)) : ∃ v, ("type", v) ∈ members := by
  obtain ⟨v, hv⟩ := Option.isSome_iff_exists.1 (accepts_object.1 h).type
  exact ⟨v, mem_of_lookup hv⟩

theorem member (h : Accepts (.object members)) (distinct : (members.map Prod.fst).Nodup)
    {key : String} (known : key ∈ keys) {v : Json} (mem : (key, v) ∈ members) :
    memberViolations key v = [] :=
  (accepts_object.1 h).member key known v (lookup_of_mem distinct mem)

theorem member_of_ofKey? (h : Accepts (.object members)) (distinct : (members.map Prod.fst).Nodup)
    {key : String} {slot : Slot} (hkey : Slot.ofKey? key = some slot) {v : Json}
    (mem : (key, v) ∈ members) : memberViolations key v = [] := by
  rw [Slot.ofKey?_eq_some] at hkey
  cases slot with
  | default =>
    obtain rfl : key = "default" := by simpa [Slot.key] using hkey
    rfl
  | _ =>
    refine h.member distinct ?_ mem
    simp only [Slot.key] at hkey
    rcases hkey with rfl | ⟨-, rfl⟩ | ⟨-, rfl⟩ <;> decide

/-- A node whose type is the single name `array` has a member for its elements. -/
theorem array_elements (h : Accepts (.object members))
    (array : members.lookup "type" = some (.string "array")) :
    (∃ u, ("items", u) ∈ members) ∨ ∃ u, ("prefixItems", u) ∈ members := by
  have held : ∀ key, (members.lookup key).isSome → ∃ u, (key, u) ∈ members := by
    intro key present
    obtain ⟨u, hu⟩ := Option.isSome_iff_exists.1 present
    exact ⟨u, mem_of_lookup hu⟩
  exact ((accepts_object.1 h).array array).imp (held "items") (held "prefixItems")

/-- A node with alternatives has the single type `object`. -/
theorem oneOf_object (h : Accepts (.object members)) {u v : Json}
    (alternatives : members.lookup "oneOf" = some u) (type : members.lookup "type" = some v) :
    v = .string "object" := by
  have object := (accepts_object.1 h).oneOf (by rw [alternatives]; rfl)
  exact Option.some.inj (type.symm.trans object)

end Accepts

/-- What a branch finds in an accepted slot is accepted as a node. -/
theorem accepts_of_finds {b : Branch} {u w : Json} (h : memberViolations b.slot.key u = [])
    (finds : b.Finds u w) : Accepts w := by
  cases b with
  | items =>
    cases finds
    exact h
  | property name =>
    obtain ⟨members, rfl, mem⟩ := finds
    obtain ⟨_, same, accepted⟩ := memberViolations_table.1 h
    cases same
    exact accepted _ mem
  | prefixItem i | alternative i =>
    obtain ⟨items, rfl, hi⟩ := finds
    obtain ⟨_, same, -, accepted⟩ := (memberViolations_list (by simp [Branch.slot, Slot.key])).1 h
    cases same
    exact accepted w (List.mem_of_getElem? hi)

theorem Accepts.child {v w : Json} {b : Branch} (h : Accepts v) (distinct : v.HasDistinctKeys)
    (child : v.Child b w) : Accepts w := by
  cases v with
  | object members =>
    obtain ⟨u, mem, finds⟩ := Json.child_iff_finds.1 child
    have known : b.slot.key ∈ keys := by cases b <;> simp [Branch.slot, Slot.key, keys]
    exact accepts_of_finds (h.member distinct.1 known mem) finds
  | _ => exact child.elim

end MetaSchema

end SchemaModel
