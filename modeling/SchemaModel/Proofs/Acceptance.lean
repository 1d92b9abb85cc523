import SchemaModel.Proofs.Grammar

/-!
# Accepted documents decode

The grammar of documents and the reading of nodes are two descriptions of one format.  Whatever the
grammar accepts in a slot reads there, so an accepted document can fail to decode in one way only:
a node fills a slot twice, by the two keys that the slot has.

* `MetaSchema.exists_finds_of_read_error` — an accepted value fails to read in a slot only if a
  node in it does not decode;
* `Json.SpellsTwice` — a node fills a slot by both of its keys;
* `accepted_decodes_iff_spelled_once` — an accepted document decodes exactly if no node of it does
  so, and otherwise the error names such a node and its slot.
-/

namespace SchemaModel

open Outcome

/-! ### The paths of errors -/

namespace DecodeError

/-- A step into a document, as the path of an error has it. -/
def PathStep.ofStep : Location.Step → PathStep
  | .key name => .key name
  | .index i => .index i

/-- The error seen from a value that steps lead away from. -/
def behind (steps : List Location.Step) (e : DecodeError) : DecodeError :=
  ⟨steps.map PathStep.ofStep ++ e.path, e.cause⟩

theorem behind_append (steps rest : List Location.Step) (e : DecodeError) :
    e.behind (steps ++ rest) = (e.behind rest).behind steps := by
  simp [behind]

theorem under_key_behind (b : Branch) (e : DecodeError) :
    (e.behind b.inner).under (.key b.slot.key) = e.behind b.steps := by
  rw [Branch.steps_eq]
  rfl

end DecodeError

/-! ### Accepted values read -/

namespace MetaSchema

theorem exists_optional_eq_ok {α : Type} {read : Json → Except DecodeError α} {v : Json} {x : α}
    (h : read v = .ok x) : ∃ y, Decode.optional read v = .ok y := by
  cases v with
  | null => exact ⟨none, rfl⟩
  | _ => exact ⟨some x, map_eq_ok.2 ⟨x, h, rfl⟩⟩

/-- **An accepted value fails to read in a slot only if a node in it does not decode**, and then
its error is the error of the slot. -/
theorem exists_finds_of_read_error {key : String} {slot : Slot} {v : Json} {e : DecodeError}
    (hkey : Slot.ofKey? key = some slot) (h : memberViolations key v = [])
    (he : slot.read v = .error e) :
    ∃ (b : Branch) (w : Json) (e' : DecodeError), b.slot = slot ∧ b.Finds v w ∧
      Schema.ofJson w = .error e' ∧ e = e'.behind b.inner := by
  have spelled := Slot.ofKey?_eq_some.1 hkey
  cases slot with
  | type =>
    obtain rfl : key = "type" := by simpa [Slot.key] using spelled
    obtain ⟨t, ht⟩ : ∃ t, Schema.typeExpr v = .ok t := by
      rcases typeViolations_eq_nil.1 h with ⟨n, rfl, -⟩ | ⟨names, rfl, -⟩
      · exact ⟨.name n, rfl⟩
      · exact ⟨.choice names, Schema.typeExpr_eq_ok.2 (.inr ⟨names, rfl, rfl⟩)⟩
    cases ht.symm.trans he
  | targetType =>
    have name : nameViolations v = [] := by
      rcases spelled with rfl | ⟨-, rfl⟩ | ⟨⟨⟩, -⟩ <;> exact h
    obtain ⟨n, rfl, -⟩ := nameViolations_eq_nil.1 name
    cases he
  | title =>
    obtain rfl : key = "title" := by simpa [Slot.key] using spelled
    obtain ⟨n, rfl⟩ := textViolations_eq_nil.1 h
    cases he
  | description =>
    obtain rfl : key = "description" := by simpa [Slot.key] using spelled
    obtain ⟨n, rfl⟩ := textViolations_eq_nil.1 h
    cases he
  | enum =>
    obtain rfl : key = "enum" := by simpa [Slot.key] using spelled
    obtain ⟨ss, listed, -⟩ := enumViolations_eq_nil.1 h
    obtain ⟨x, hx⟩ := exists_optional_eq_ok (Decode.strings_eq_ok.2 listed)
    cases hx.symm.trans he
  | declaredFields =>
    have names : nameListViolations v = [] := by
      rcases spelled with rfl | ⟨⟨⟩, -⟩ | ⟨-, rfl⟩ <;> exact h
    obtain ⟨ss, listed, -⟩ := nameListViolations_eq_nil.1 names
    obtain ⟨x, hx⟩ := exists_optional_eq_ok (Decode.strings_eq_ok.2 listed)
    cases hx.symm.trans he
  | default => cases he
  | items =>
    obtain ⟨-, he⟩ := Schema.unlessNull_eq_error.1 he
    exact ⟨.items, v, e, rfl, rfl, he, rfl⟩
  | prefixItems =>
    obtain rfl : key = "prefixItems" := by simpa [Slot.key] using spelled
    obtain ⟨items, rfl, -⟩ := (memberViolations_list (by decide)).1 h
    obtain ⟨j, w, e', hj, he', rfl⟩ := Schema.nodeElements_eq_error (map_eq_error.1 he)
    rw [Nat.zero_add]
    exact ⟨.prefixItem j, w, e', rfl, ⟨items, rfl, hj⟩, he', rfl⟩
  | oneOf =>
    obtain rfl : key = "oneOf" := by simpa [Slot.key] using spelled
    obtain ⟨items, rfl, -⟩ := (memberViolations_list (by decide)).1 h
    obtain ⟨j, w, e', hj, he', rfl⟩ := Schema.nodeElements_eq_error (map_eq_error.1 he)
    rw [Nat.zero_add]
    exact ⟨.alternative j, w, e', rfl, ⟨items, rfl, hj⟩, he', rfl⟩
  | properties =>
    obtain rfl : key = "properties" := by simpa [Slot.key] using spelled
    obtain ⟨members, rfl, -⟩ := memberViolations_table.1 h
    obtain ⟨name, w, e', mem, he', rfl⟩ := Schema.nodeMembers_eq_error he
    exact ⟨.property name, w, e', rfl, ⟨members, rfl, mem⟩, he', rfl⟩

end MetaSchema

/-! ### Slots filled by both of their keys -/

/-- A node fills a slot by both of its keys; two slots have two. -/
def Json.SpellsTwice : Json → Slot → Prop
  | .object members, .targetType =>
    "target_type" ∈ members.map Prod.fst ∧ "cpp_type" ∈ members.map Prod.fst
  | .object members, .declaredFields =>
    "declared_fields" ∈ members.map Prod.fst ∧ "cpp_fields" ∈ members.map Prod.fst
  | _, _ => False

/-- Two keys that fill one slot are the two keys of a slot that has two. -/
theorem Json.spellsTwice_of_ofKey? {members : List (String × Json)} {key key' : String}
    {slot : Slot} (hkey : Slot.ofKey? key = some slot) (hkey' : Slot.ofKey? key' = some slot)
    (different : key ≠ key') (mem : key ∈ members.map Prod.fst)
    (mem' : key' ∈ members.map Prod.fst) : (Json.object members).SpellsTwice slot := by
  rw [Slot.ofKey?_eq_some] at hkey hkey'
  cases slot with
  | targetType =>
    obtain ⟨rfl, rfl⟩ | ⟨rfl, rfl⟩ : (key = "target_type" ∧ key' = "cpp_type") ∨
        (key = "cpp_type" ∧ key' = "target_type") := by
      simp only [Slot.key] at hkey hkey'
      grind
    · exact ⟨mem, mem'⟩
    · exact ⟨mem', mem⟩
  | declaredFields =>
    obtain ⟨rfl, rfl⟩ | ⟨rfl, rfl⟩ : (key = "declared_fields" ∧ key' = "cpp_fields") ∨
        (key = "cpp_fields" ∧ key' = "declared_fields") := by
      simp only [Slot.key] at hkey hkey'
      grind
    · exact ⟨mem, mem'⟩
    · exact ⟨mem', mem⟩
  | _ =>
    have same : key = key' := by
      simp only [Slot.key] at hkey hkey'
      grind
    exact absurd same different

theorem Json.SpellsTwice.key_eq {v : Json} {slot : Slot} (h : v.SpellsTwice slot) :
    slot.key = "target_type" ∨ slot.key = "declared_fields" := by
  cases v with
  | object members =>
    cases slot with
    | targetType => exact .inl rfl
    | declaredFields => exact .inr rfl
    | _ => exact h.elim
  | _ => exact h.elim

theorem Json.SpellsTwice.exists_keys {members : List (String × Json)} {slot : Slot}
    (h : (Json.object members).SpellsTwice slot) :
    ∃ key key', key ≠ key' ∧ key ∈ members.map Prod.fst ∧ key' ∈ members.map Prod.fst ∧
      Slot.ofKey? key = some slot ∧ Slot.ofKey? key' = some slot := by
  cases slot with
  | targetType => exact ⟨_, _, by decide, h.1, h.2, rfl, rfl⟩
  | declaredFields => exact ⟨_, _, by decide, h.1, h.2, rfl, rfl⟩
  | _ => exact h.elim

theorem Schema.not_spellsTwice {v : Json} {s : Schema} (h : ofJson v = .ok s) (slot : Slot) :
    ¬ v.SpellsTwice slot := by
  intro twice
  cases v with
  | object members =>
    obtain ⟨key, key', different, mem, mem', hkey, hkey'⟩ := twice.exists_keys
    obtain ⟨m, hm, rfl⟩ := List.mem_map.1 mem
    obtain ⟨m', hm', rfl⟩ := List.mem_map.1 mem'
    exact different (key_eq_of_ofKey? h hm hm' hkey hkey')
  | _ => exact twice.elim

/-- A slot that has been filled has been filled by a member. -/
theorem Schema.exists_member_of_filled {members : List (String × Json)} {d : Draft}
    (h : fillMembers {} members = .ok d) {slot : Slot} (filled : (d.get slot).isSome) :
    ∃ key v, (key, v) ∈ members ∧ Slot.ofKey? key = some slot := by
  have hslot := (fillMembers_eq_ok h).1 slot
  cases hl : (Json.object members).slots.lookup slot with
  | none =>
    rw [hl] at hslot
    rw [hslot, Draft.get_empty] at filled
    cases filled
  | some v =>
    obtain ⟨key, mem, hkey⟩ := Json.mem_slots_object.1 (mem_of_lookup hl)
    exact ⟨key, v, mem, hkey⟩

/-- The reading of an accepted object does not lack the type. -/
theorem MetaSchema.Accepts.type_filled {members : List (String × Json)}
    (accepted : Accepts (.object members)) {d : Schema.Draft}
    (h : Schema.fillMembers {} members = .ok d) : d.type ≠ none := by
  obtain ⟨filled, -, nodup⟩ := Schema.fillMembers_eq_ok h
  obtain ⟨v, mem⟩ := accepted.type_present
  have hv := lookup_of_mem nodup (Json.mem_slots_object.2 ⟨"type", mem, rfl⟩)
  have htype := filled .type
  rw [hv] at htype
  obtain ⟨t, -, ht⟩ := htype
  rw [show d.type = some t from ht]
  exact Option.some_ne_none t

/-- **An accepted document fails to decode only at a node that fills a slot by both of its keys**,
and its error names the place of that node and the slot. -/
theorem MetaSchema.Accepts.exists_spellsTwice_of_error {d : Json} (accepted : Accepts d)
    (distinct : d.HasDistinctKeys) {e : DecodeError} (h : Schema.ofJson d = .error e) :
    ∃ bs v slot, Walk Json.Child d bs v ∧ v.SpellsTwice slot ∧
      e = (DecodeError.here (.duplicateField slot.key)).behind (Location.root.along bs).steps := by
  induction d using Json.induction generalizing e with
  | step d ih =>
    obtain ⟨members, rfl⟩ := accepted.exists_object
    rcases bind_eq_error.1 h with failed | ⟨draft, hdraft, unfinished⟩
    · obtain ⟨before, key, v, after, d₁, slot, rfl, hbefore, hkey, duplicate | unread⟩ :=
        Schema.fillMembers_eq_error failed
      · obtain ⟨filled, rfl⟩ := duplicate
        obtain ⟨key', v', mem', hkey'⟩ := Schema.exists_member_of_filled hbefore filled
        have different : key' ≠ key := by
          have nodup := distinct.1
          rw [List.map_append, List.nodup_append] at nodup
          exact nodup.2.2 key' (List.mem_map_of_mem mem') key (by simp)
        refine ⟨[], _, slot, .here _, ?_, rfl⟩
        refine Json.spellsTwice_of_ofKey? hkey' hkey different ?_ (by simp)
        exact List.mem_map.2 ⟨(key', v'), List.mem_append_left _ mem', rfl⟩
      · -- the value of a member does not read, so a child node does not decode
        obtain ⟨e', he', rfl⟩ := unread
        have mem : (key, v) ∈ before ++ (key, v) :: after := by simp
        have fine := accepted.member_of_ofKey? distinct.1 hkey mem
        obtain ⟨b, w, e'', rfl, finds, hw, rfl⟩ :=
          MetaSchema.exists_finds_of_read_error hkey fine he'
        obtain rfl := Branch.ofKey?_eq_slot.1 hkey
        have child := Json.child_iff_finds.2 ⟨v, mem, finds⟩
        obtain ⟨k, inside⟩ := child.inside
        obtain ⟨bs, u, slot, walk, twice, rfl⟩ :=
          ih k w inside (accepted.child distinct child) (distinct.child child) hw
        refine ⟨b :: bs, u, slot, .down child walk, twice, ?_⟩
        rw [DecodeError.under_key_behind, ← DecodeError.behind_append,
          ← Location.steps_along_cons]
    · exact absurd (Schema.Draft.finish_eq_error.1 unfinished).1 (accepted.type_filled hdraft)

/-! ### Accepted documents beside their nodes -/

/-- An accepted value that repeats no key decodes to a node. -/
structure Json.Describes (v : Json) (s : Schema) : Prop where
  accepted : MetaSchema.Accepts v
  distinct : v.HasDistinctKeys
  decodes : Schema.ofJson v = .ok s

namespace Json.Describes

variable {v : Json} {s : Schema}

theorem child (h : v.Describes s) {b : Branch} {w : Json} (child : v.Child b w) :
    ∃ c, s.Child b c ∧ w.Describes c := by
  have accepted := h.accepted.child h.distinct child
  obtain ⟨c, child', decoded⟩ := Schema.exists_child_of_jsonChild h.decodes child accepted.ne_null
  exact ⟨c, child', accepted, h.distinct.child child, decoded⟩

theorem exists_child (h : v.Describes s) {b : Branch} {c : Schema} (child : s.Child b c) :
    ∃ w, v.Child b w ∧ w.Describes c := by
  obtain ⟨members, rfl⟩ := h.accepted.exists_object
  obtain ⟨w, child', decoded⟩ := Schema.exists_jsonChild_of_child h.decodes child
  exact ⟨w, child', h.accepted.child h.distinct child', h.distinct.child child', decoded⟩

/-- **The same branches lead through a document and through its nodes.** -/
theorem walk (h : v.Describes s) {bs : List Branch} {w : Json} (walk : Walk Json.Child v bs w) :
    ∃ n, Walk Schema.Child s bs n ∧ w.Describes n := by
  refine Walk.simulate ?_ walk h
  intro v w b s describes child
  exact describes.child child

theorem exists_walk (h : v.Describes s) {bs : List Branch} {n : Schema}
    (walk : Walk Schema.Child s bs n) : ∃ w, Walk Json.Child v bs w ∧ w.Describes n := by
  refine Walk.simulate (R := fun s v => Describes v s) ?_ walk h
  intro s n b v describes child
  exact describes.exists_child child

end Json.Describes

/-- **Accepted documents decode unless a node fills a slot by both of its keys.**  If one does, the
error is that of such a node, at its place. -/
theorem accepted_decodes_iff_spelled_once (d : Json) (distinct : d.HasDistinctKeys)
    (accepted : Validator.metaSchema d = .ok ()) :
    ((∃ s, Schema.ofJson d = .ok s) ↔
      ∀ bs v slot, Walk Json.Child d bs v → ¬ v.SpellsTwice slot) ∧
    ((∃ bs v slot, Walk Json.Child d bs v ∧ v.SpellsTwice slot) →
      ∃ e bs v slot, Schema.ofJson d = .error e ∧ Walk Json.Child d bs v ∧ v.SpellsTwice slot ∧
        (slot.key = "target_type" ∨ slot.key = "declared_fields") ∧
        e.path = (Location.root.along bs).steps.map DecodeError.PathStep.ofStep ∧
        e.message = "at JSON path " ++ DecodeError.pathText e.path ++ " → " ++
          ("duplicate field `" ++ slot.key ++ "`")) := by
  rw [MetaSchema.metaSchema_eq_ok] at accepted
  have once : ∀ s, Schema.ofJson d = .ok s →
      ∀ bs v slot, Walk Json.Child d bs v → ¬ v.SpellsTwice slot := by
    intro s h bs v slot walk
    have describes : d.Describes s := ⟨accepted, distinct, h⟩
    obtain ⟨n, -, describes'⟩ := describes.walk walk
    exact Schema.not_spellsTwice describes'.decodes slot
  constructor
  · constructor
    · rintro ⟨s, h⟩
      exact once s h
    · intro never
      rcases ok_or_error (Schema.ofJson d) with decoded | ⟨e, h⟩
      · exact decoded
      · obtain ⟨bs, v, slot, walk, twice, -⟩ := accepted.exists_spellsTwice_of_error distinct h
        exact absurd twice (never bs v slot walk)
  · rintro ⟨bs, v, slot, walk, twice⟩
    rcases ok_or_error (Schema.ofJson d) with ⟨s, h⟩ | ⟨e, h⟩
    · exact absurd twice (once s h bs v slot walk)
    · obtain ⟨bs, v, slot, walk, twice, rfl⟩ := accepted.exists_spellsTwice_of_error distinct h
      exact ⟨_, bs, v, slot, h, walk, twice, twice.key_eq, List.append_nil _, rfl⟩

/-- A node that names its target by both keys. -/
def twiceTargeted : Json :=
  .object [("cpp_type", .string "A"), ("type", .string "string"), ("target_type", .string "B")]

theorem tuple_of_twiceTargeted_refused :
    let d : Json := .object [("prefixItems", .array [twiceTargeted]), ("type", .string "array")]
    d.HasDistinctKeys ∧ Validator.metaSchema d = .ok () ∧ (¬ ∃ s, Schema.ofJson d = .ok s) ∧
      ∃ e, Schema.ofJson d = .error e := by
  intro d
  have distinct : d.HasDistinctKeys := by
    simp [d, twiceTargeted, Json.HasDistinctKeys, Json.MembersHaveDistinctKeys,
      Json.ItemsHaveDistinctKeys]
  have accepted : Validator.metaSchema d = .ok () := rfl
  have walk : Walk Json.Child d [.prefixItem 0] twiceTargeted :=
    .down ⟨_, List.mem_cons_self, rfl⟩ (.here _)
  have twice : twiceTargeted.SpellsTwice .targetType := ⟨by decide, by decide⟩
  have both := accepted_decodes_iff_spelled_once d distinct accepted
  obtain ⟨e, -, -, -, failed, -⟩ := both.2 ⟨_, _, _, walk, twice⟩
  exact ⟨distinct, accepted, fun decoded => both.1.1 decoded _ _ _ walk twice, e, failed⟩

end SchemaModel
