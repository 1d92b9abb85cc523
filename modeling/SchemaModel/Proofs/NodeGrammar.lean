import SchemaModel.Proofs.Documents
import SchemaModel.Proofs.NodeCriteria
import SchemaModel.Proofs.ValueRules
import SchemaModel.Schema.ToJson

/-!
# The grammar of nodes

A value reads as a node exactly if it belongs to a grammar of its own, which is wider than that of
documents: a node may be an array of its slots, null stands for an absent value in most slots, and
no slot depends on another.  What is read is what stands in the slots, whatever the order of the
keys.

* `Json.slotValue?` — the value that a written node puts into a slot;
* `Json.Decodable` — the values of the grammar;
* `Json.HasFields` — the fields of a node are the values in the slots of its written form;
* `Schema.ofJson_eq_ok_iff_hasFields` — what reads as a node, and as which;
* `decoding_accepts_decodable` — the grammar and the fields together.
-/

namespace SchemaModel

/-! ### The values of a written node -/

namespace Slot

/-- The place of a slot in a node that is written as an array. -/
def position : Slot → Nat
  | .type => 0
  | .targetType => 1
  | .title => 2
  | .description => 3
  | .properties => 4
  | .items => 5
  | .prefixItems => 6
  | .oneOf => 7
  | .enum => 8
  | .default => 9
  | .declaredFields => 10

/-- The other key of a slot that has two. -/
def secondKey? : Slot → Option String
  | .targetType => some "cpp_type"
  | .declaredFields => some "cpp_fields"
  | _ => none

theorem all_position (slot : Slot) : all[slot.position]? = some slot := by cases slot <;> rfl

theorem ofKey?_iff {slot : Slot} {key : String} :
    ofKey? key = some slot ↔ key = slot.key ∨ slot.secondKey? = some key := by
  rw [ofKey?_eq_some]
  cases slot <;> simp [secondKey?, eq_comm]

theorem key_ne_second {slot : Slot} {key : String} (h : slot.secondKey? = some key) :
    slot.key ≠ key := by
  cases slot <;> cases h <;> decide

end Slot

namespace Json

/-- The value that a written node puts into a slot: under one of the keys of the slot, or at its
place. -/
def slotValue? : Json → Slot → Option Json
  | .object members, slot =>
    (members.lookup slot.key).or (slot.secondKey?.bind fun key => members.lookup key)
  | .array items, slot => items[slot.position]?
  | _, _ => none

/-- The value in a slot, if there is one and it is not null. -/
def held? (v : Json) (slot : Slot) : Option Json := (v.slotValue? slot).bind Schema.defaultValue

/-- A written node is an object that fills no slot by both of its keys, or an array with a value for
the first slot and with no more values than there are slots. -/
def IsWrittenNode : Json → Prop
  | .object members =>
    ∀ (slot : Slot) key, slot.secondKey? = some key →
      members.lookup slot.key = none ∨ members.lookup key = none
  | .array items => 1 ≤ items.length ∧ items.length ≤ 11
  | _ => False

/-- What is asked of the values in the slots, the nodes in them apart. -/
structure HasForms (v : Json) : Prop where
  type : ∃ u, v.slotValue? .type = some u ∧
    (u.IsText ∨ ∃ names, u = .array names ∧ ∀ w ∈ names, w.IsText)
  texts : ∀ slot ∈ [Slot.targetType, .title, .description], ∀ u, v.slotValue? slot = some u →
    u = .null ∨ u.IsText
  properties : ∀ u, v.slotValue? .properties = some u → ∃ nodes, u = .object nodes
  lists : ∀ slot ∈ [Slot.prefixItems, .oneOf], ∀ u, v.slotValue? slot = some u →
    u = .null ∨ ∃ nodes, u = .array nodes
  textLists : ∀ slot ∈ [Slot.enum, .declaredFields], ∀ u, v.slotValue? slot = some u →
    u = .null ∨ ∃ texts, u = .array texts ∧ ∀ w ∈ texts, w.IsText

/-- The values of the grammar: written nodes whose values have the right forms and whose nodes are
in the grammar again. -/
inductive Decodable : Json → Prop
  | node {v : Json} (written : v.IsWrittenNode) (forms : v.HasForms)
      (properties : ∀ nodes, v.slotValue? .properties = some (.object nodes) →
        ∀ m ∈ nodes, Decodable m.2)
      (items : ∀ u, v.slotValue? .items = some u → u ≠ .null → Decodable u)
      (lists : ∀ slot ∈ [Slot.prefixItems, .oneOf], ∀ nodes,
        v.slotValue? slot = some (.array nodes) → ∀ u ∈ nodes, Decodable u) : Decodable v

/-- A value reads as a node. -/
def ReadsAs (v : Json) (s : Schema) : Prop := Schema.ofJson v = .ok s

/-- A value is an array of values that read as nodes. -/
def ReadsAsList (v : Json) (ss : List Schema) : Prop :=
  ∃ nodes, v = .array nodes ∧ List.Forall₂ ReadsAs nodes ss

/-- Each field of a node is the value in its slot, or nothing where there is none or null. -/
structure HasFields (v : Json) (s : Schema) : Prop where
  type : v.slotValue? .type = some s.type.toJson
  targetType : v.held? .targetType = s.targetType.map .string
  title : v.held? .title = s.title.map .string
  description : v.held? .description = s.description.map .string
  properties : ∃ nodes, (v.slotValue? .properties).getD (.object []) = .object nodes ∧
    NamedForall₂ ReadsAs nodes s.properties
  items : Option.Rel ReadsAs (v.held? .items) s.items
  prefixItems : Option.Rel ReadsAsList (v.held? .prefixItems) s.prefixItems
  oneOf : Option.Rel ReadsAsList (v.held? .oneOf) s.oneOf
  enum : v.held? .enum = s.enum.map Schema.stringsJson
  default : v.held? .default = s.default
  declaredFields : v.held? .declaredFields = s.declaredFields.map Schema.stringsJson

/-! ### Values found in slots -/

theorem isWrittenNode_iff {v : Json} (distinct : v.HasDistinctKeys) :
    v.IsWrittenNode ↔ v.FillsOnce := by
  cases v with
  | object members =>
    rw [fillsOnce_object distinct.1, IsWrittenNode]
    have present : ∀ m ∈ members, members.lookup m.1 ≠ none :=
      fun m mem none => lookup_eq_none.1 none (List.mem_map_of_mem mem)
    constructor
    · intro written slot m mem m' mem' hkey hkey'
      -- the two keys are the same unless one is the first key of the slot and one the second
      rcases Slot.ofKey?_iff.1 hkey with first | second <;>
        rcases Slot.ofKey?_iff.1 hkey' with first' | second'
      · rw [first, first']
      · rcases written slot m'.1 second' with none | none
        · exact absurd (first ▸ none) (present m mem)
        · exact absurd none (present m' mem')
      · rcases written slot m.1 second with none | none
        · exact absurd (first' ▸ none) (present m' mem')
        · exact absurd none (present m mem)
      · exact Option.some.inj (second.symm.trans second')
    · intro unique slot key second
      by_contra both
      obtain ⟨held, held'⟩ := not_or.1 both
      obtain ⟨u, hu⟩ := Option.ne_none_iff_exists'.1 held
      obtain ⟨u', hu'⟩ := Option.ne_none_iff_exists'.1 held'
      exact Slot.key_ne_second second (unique slot _ (mem_of_lookup hu) _ (mem_of_lookup hu')
        (Slot.ofKey?_key slot) (Slot.ofKey?_iff.2 (.inr second)))
  | array items =>
    rw [IsWrittenNode, FillsOnce, Nat.one_le_iff_ne_zero, Ne, List.length_eq_zero_iff]
    rfl
  | _ => rfl

/-- What fills a slot in the reading of a node is what stands under its keys or at its place. -/
theorem lookup_slots {v : Json} (distinct : v.HasDistinctKeys) (once : v.FillsOnce) (slot : Slot) :
    v.slots.lookup slot = v.slotValue? slot := by
  cases v with
  | object members =>
    have written := (isWrittenNode_iff distinct).2 once
    ext u
    constructor
    · intro found
      obtain ⟨key, mem, hkey⟩ := mem_slots_object.1 (mem_of_lookup found)
      have held : members.lookup key = some u := lookup_of_mem distinct.1 mem
      refine Option.or_eq_some_iff.2 ?_
      rcases Slot.ofKey?_iff.1 hkey with rfl | second
      · exact .inl held
      · rcases written slot key second with none | none
        · exact .inr ⟨none, by rw [second]; exact held⟩
        · cases held.symm.trans none
    · intro found
      have listed : ∀ {key}, Slot.ofKey? key = some slot → members.lookup key = some u →
          (object members).slots.lookup slot = some u :=
        fun hkey held => lookup_of_mem once (mem_slots_object.2 ⟨_, mem_of_lookup held, hkey⟩)
      rcases Option.or_eq_some_iff.1 found with held | ⟨-, held⟩
      · exact listed (Slot.ofKey?_key slot) held
      · obtain ⟨key, second, held⟩ := Option.bind_eq_some_iff.1 held
        exact listed (Slot.ofKey?_iff.2 (.inr second)) held
  | array items => exact lookup_zip Slot.all_nodup items slot.all_position
  | _ => exact once.elim

theorem part_of_slotValue? {v u : Json} {slot : Slot} (h : v.slotValue? slot = some u) :
    v.Part u := by
  cases v with
  | object members =>
    rcases Option.or_eq_some_iff.1 h with held | ⟨-, held⟩
    · exact ⟨_, mem_of_lookup held⟩
    · obtain ⟨key, -, held⟩ := Option.bind_eq_some_iff.1 held
      exact ⟨key, mem_of_lookup held⟩
  | array items => exact List.mem_of_getElem? h
  | _ => cases h

end Json

/-! ### What the values in slots give -/

section Gives

variable {α : Type} {R : Json → α → Prop}

theorem Decode.optional_eq_ok {read : Json → Except DecodeError α} {u : Json} {x : Option α} :
    optional read u = .ok x ↔
      Option.Rel (fun u y => read u = .ok y) (Schema.defaultValue u) x := by
  cases x with
  | none => cases u <;> simp [optional_eq_none, Schema.defaultValue]
  | some y => cases u <;> simp [optional_eq_some, Schema.defaultValue]

theorem Schema.unlessNull_eq_ok {read : Json → Unit → Except DecodeError α} {u : Json}
    {x : Option α} :
    unlessNull u (read u) = .ok x ↔
      Option.Rel (fun u y => read u () = .ok y) (defaultValue u) x := by
  cases x with
  | none => cases u <;> simp [unlessNull_eq_none, defaultValue]
  | some y => cases u <;> simp [unlessNull_eq_some, defaultValue]

namespace Slot

/-- A reading of values that may be null, applied to a value that may be missing. -/
theorem gives_iff_rel {read : Json → Except DecodeError (Option α)}
    (reads : ∀ u x, read u = .ok x ↔ Option.Rel R (Schema.defaultValue u) x) {o : Option Json}
    {x : Option α} :
    (match o with
      | some u => read u = .ok x
      | none => some none = some x) ↔ Option.Rel R (o.bind Schema.defaultValue) x := by
  cases o with
  | some u => exact reads u x
  | none => cases x <;> simp

variable {o : Option Json}

theorem gives_type {t : TypeExpr} : Gives .type o t ↔ o = some t.toJson := by
  cases o with
  | none => simp [Gives, absent?]
  | some u =>
    show Schema.typeExpr u = .ok t ↔ _
    rw [Schema.typeExpr_eq_ok, Option.some.injEq]
    cases t <;> simp [TypeExpr.toJson]

theorem gives_text {x : Option String} :
    Gives .title o x ↔ o.bind Schema.defaultValue = x.map .string := by
  refine Iff.trans (gives_iff_rel fun u x => ?_) rel_eq_map_iff
  have reads := @Decode.optional_eq_ok _ Decode.string u x
  simp only [Decode.string_eq_ok] at reads
  exact reads

theorem gives_texts {x : Option (List String)} :
    Gives .enum o x ↔ o.bind Schema.defaultValue = x.map Schema.stringsJson := by
  refine Iff.trans (gives_iff_rel fun u x => ?_) rel_eq_map_iff
  have reads := @Decode.optional_eq_ok _ Decode.strings u x
  simp only [Decode.strings_eq_ok] at reads
  exact reads

theorem gives_node {x : Option Schema} :
    Gives .items o x ↔ Option.Rel Json.ReadsAs (o.bind Schema.defaultValue) x :=
  gives_iff_rel fun u x => @Schema.unlessNull_eq_ok _ (fun u => (Schema.readings u).node) u x

theorem gives_nodes {x : Option (List Schema)} :
    Gives .prefixItems o x ↔ Option.Rel Json.ReadsAsList (o.bind Schema.defaultValue) x := by
  refine gives_iff_rel fun u x => ?_
  have reads := @Schema.unlessNull_eq_ok _ (fun u => (Schema.readings u).nodes) u x
  simp only [Schema.nodes_eq_ok] at reads
  exact reads

theorem gives_nodeTable {x : List (String × Schema)} :
    Gives .properties o x ↔
      ∃ nodes, o.getD (.object []) = .object nodes ∧ NamedForall₂ Json.ReadsAs nodes x := by
  cases o with
  | some u => exact Schema.nodeTable_eq_ok
  | none =>
    constructor
    · intro absent
      cases absent
      exact ⟨[], rfl, .nil⟩
    · rintro ⟨nodes, same, each⟩
      cases same
      cases each
      rfl

theorem gives_default {x : Option Json} :
    Gives .default o x ↔ o.bind Schema.defaultValue = x := by
  cases o with
  | some u => exact ⟨Except.ok.inj, congrArg Except.ok⟩
  | none => exact ⟨Option.some.inj, congrArg some⟩

end Slot

end Gives

namespace Schema

/-- **A value reads as a node exactly if it is a written node and the fields of the node are the
values in its slots.** -/
theorem ofJson_eq_ok_iff_hasFields {v : Json} {s : Schema} (distinct : v.HasDistinctKeys) :
    ofJson v = .ok s ↔ v.IsWrittenNode ∧ v.HasFields s := by
  rw [ofJson_eq_ok, Json.isWrittenNode_iff distinct]
  refine and_congr_right fun once => ?_
  simp only [Json.lookup_slots distinct once]
  constructor
  · intro gives
    exact ⟨Slot.gives_type.1 (gives .type), Slot.gives_text.1 (gives .targetType),
      Slot.gives_text.1 (gives .title), Slot.gives_text.1 (gives .description),
      Slot.gives_nodeTable.1 (gives .properties), Slot.gives_node.1 (gives .items),
      Slot.gives_nodes.1 (gives .prefixItems), Slot.gives_nodes.1 (gives .oneOf),
      Slot.gives_texts.1 (gives .enum), Slot.gives_default.1 (gives .default),
      Slot.gives_texts.1 (gives .declaredFields)⟩
  · intro fields slot
    cases slot with
    | type => exact Slot.gives_type.2 fields.type
    | targetType => exact Slot.gives_text.2 fields.targetType
    | title => exact Slot.gives_text.2 fields.title
    | description => exact Slot.gives_text.2 fields.description
    | properties => exact Slot.gives_nodeTable.2 fields.properties
    | items => exact Slot.gives_node.2 fields.items
    | prefixItems => exact Slot.gives_nodes.2 fields.prefixItems
    | oneOf => exact Slot.gives_nodes.2 fields.oneOf
    | enum => exact Slot.gives_texts.2 fields.enum
    | default => exact Slot.gives_default.2 fields.default
    | declaredFields => exact Slot.gives_texts.2 fields.declaredFields

end Schema

/-! ### Reading and the grammar -/

namespace Json

variable {v : Json} {s : Schema}

theorem held?_of_slotValue? {u : Json} {slot : Slot} (found : v.slotValue? slot = some u)
    (present : u ≠ .null) : v.held? slot = some u := by
  rw [held?, found]
  cases u <;> first | rfl | exact absurd rfl present

/-- What a slot holds has a reading if the value in it is null or has one. -/
theorem exists_rel_held? {α : Type} {R : Json → α → Prop} {slot : Slot} :
    (∃ x, Option.Rel R (v.held? slot) x) ↔
      ∀ u, v.slotValue? slot = some u → u = .null ∨ ∃ y, R u y := by
  constructor
  · rintro ⟨x, reads⟩ u found
    by_cases null : u = .null
    · exact .inl null
    · obtain ⟨y, -, own⟩ := Rel.exists_of_eq_some reads (held?_of_slotValue? found null)
      exact .inr ⟨y, own⟩
  · intro each
    cases found : v.slotValue? slot with
    | none => exact ⟨none, by rw [held?, found]; exact .none⟩
    | some u =>
      rcases each u found with rfl | ⟨y, own⟩
      · exact ⟨none, by rw [held?, found]; exact .none⟩
      · by_cases null : u = .null
        · exact ⟨none, by rw [held?, found, null]; exact .none⟩
        · exact ⟨some y, by rw [held?_of_slotValue? found null]; exact .some own⟩

/-- The same for readings that give a value back as it was written. -/
theorem exists_held?_eq_map {α : Type} {f : α → Json} {slot : Slot} :
    (∃ x : Option α, v.held? slot = x.map f) ↔
      ∀ u, v.slotValue? slot = some u → u = .null ∨ ∃ y, u = f y := by
  rw [← exists_rel_held?]
  simp only [rel_eq_map_iff]

theorem exists_eq_stringsJson_iff {u : Json} :
    (∃ ss, u = Schema.stringsJson ss) ↔ ∃ texts, u = .array texts ∧ ∀ w ∈ texts, w.IsText := by
  constructor
  · rintro ⟨ss, rfl⟩
    exact ⟨_, rfl, forall_isText_iff.2 ⟨ss, rfl⟩⟩
  · rintro ⟨texts, rfl, each⟩
    obtain ⟨ss, rfl⟩ := forall_isText_iff.1 each
    exact ⟨ss, rfl⟩

theorem exists_eq_toJson_iff {u : Json} :
    (∃ t : TypeExpr, u = t.toJson) ↔
      u.IsText ∨ ∃ names, u = .array names ∧ ∀ w ∈ names, w.IsText := by
  rw [← exists_eq_stringsJson_iff]
  constructor
  · rintro ⟨n | ns, rfl⟩
    · exact .inl ⟨n, rfl⟩
    · exact .inr ⟨ns, rfl⟩
  · rintro (⟨n, rfl⟩ | ⟨ns, rfl⟩)
    · exact ⟨.name n, rfl⟩
    · exact ⟨.choice ns, rfl⟩

namespace HasFields

theorem text (h : v.HasFields s) {slot : Slot}
    (mem : slot ∈ [Slot.targetType, .title, .description]) :
    ∃ x : Option String, v.held? slot = x.map .string := by
  simp only [List.mem_cons, List.not_mem_nil, or_false] at mem
  rcases mem with rfl | rfl | rfl
  exacts [⟨_, h.targetType⟩, ⟨_, h.title⟩, ⟨_, h.description⟩]

theorem list (h : v.HasFields s) {slot : Slot} (mem : slot ∈ [Slot.prefixItems, .oneOf]) :
    ∃ x, Option.Rel ReadsAsList (v.held? slot) x := by
  simp only [List.mem_cons, List.not_mem_nil, or_false] at mem
  rcases mem with rfl | rfl
  exacts [⟨_, h.prefixItems⟩, ⟨_, h.oneOf⟩]

theorem textList (h : v.HasFields s) {slot : Slot} (mem : slot ∈ [Slot.enum, .declaredFields]) :
    ∃ x : Option (List String), v.held? slot = x.map Schema.stringsJson := by
  simp only [List.mem_cons, List.not_mem_nil, or_false] at mem
  rcases mem with rfl | rfl
  exacts [⟨_, h.enum⟩, ⟨_, h.declaredFields⟩]

/-- The values in the slots of a written node have the forms that the grammar asks for. -/
theorem hasForms (h : v.HasFields s) : v.HasForms where
  type := ⟨_, h.type, exists_eq_toJson_iff.1 ⟨_, rfl⟩⟩
  texts slot mem u found := exists_held?_eq_map.1 (h.text mem) u found
  properties u found := by
    obtain ⟨nodes, same, -⟩ := h.properties
    rw [found] at same
    exact ⟨nodes, same⟩
  lists slot mem u found := by
    refine (exists_rel_held?.1 (h.list mem) u found).imp_right ?_
    rintro ⟨_, nodes, same, -⟩
    exact ⟨nodes, same⟩
  textLists slot mem u found :=
    (exists_held?_eq_map.1 (h.textList mem) u found).imp_right exists_eq_stringsJson_iff.1

end HasFields

/-- **What reads as a node belongs to the grammar.** -/
theorem decodable_of_readsAs (distinct : v.HasDistinctKeys) (reads : v.ReadsAs s) :
    v.Decodable := by
  -- by induction on the value: the nodes of a written node lie inside it
  induction v using Json.induction generalizing s with
  | step v ih =>
    obtain ⟨written, fields⟩ := (Schema.ofJson_eq_ok_iff_hasFields distinct).1 reads
    have below : ∀ {k u c}, v.Inside (k + 1) u → u.ReadsAs c → u.Decodable :=
      fun inside own => ih _ _ inside (distinct.inside inside) own
    refine .node written fields.hasForms (fun nodes found m mem => ?_) (fun u found present => ?_)
      fun slot known nodes found u mem => ?_
    · obtain ⟨_, same, each⟩ := fields.properties
      rw [found] at same
      cases same
      obtain ⟨c, -, own⟩ := NamedForall₂.mem_left each (show (m.1, m.2) ∈ nodes from mem)
      exact below (.deeper (part_of_slotValue? found) (.deeper ⟨m.1, mem⟩ (.here _))) own
    · obtain ⟨c, -, own⟩ :=
        Rel.exists_of_eq_some fields.items (held?_of_slotValue? found present)
      exact below (.deeper (part_of_slotValue? found) (.here u)) own
    · rcases exists_rel_held?.1 (fields.list known) _ found with null | ⟨cs, _, same, each⟩
      · cases null
      · cases same
        obtain ⟨i, hi⟩ := List.mem_iff_getElem?.1 mem
        obtain ⟨c, -, own⟩ := Forall₂.getElem?_left each hi
        exact below (.deeper (part_of_slotValue? found) (.deeper mem (.here u))) own

namespace HasForms

theorem text (h : v.HasForms) (slot : Slot)
    (mem : slot ∈ [Slot.targetType, .title, .description]) :
    ∃ x : Option String, v.held? slot = x.map .string :=
  exists_held?_eq_map.2 (h.texts slot mem)

theorem textList (h : v.HasForms) (slot : Slot) (mem : slot ∈ [Slot.enum, .declaredFields]) :
    ∃ x : Option (List String), v.held? slot = x.map Schema.stringsJson :=
  exists_held?_eq_map.2 fun u found =>
    (h.textLists slot mem u found).imp_right exists_eq_stringsJson_iff.2

theorem nodeTable (h : v.HasForms)
    (each : ∀ nodes, v.slotValue? .properties = some (.object nodes) →
      ∀ m ∈ nodes, ∃ c, m.2.ReadsAs c) :
    ∃ ps nodes, (v.slotValue? .properties).getD (.object []) = .object nodes ∧
      NamedForall₂ ReadsAs nodes ps := by
  cases found : v.slotValue? .properties with
  | none => exact ⟨[], [], rfl, .nil⟩
  | some u =>
    obtain ⟨nodes, rfl⟩ := h.properties u found
    obtain ⟨ps, named⟩ := exists_namedForall₂ (each nodes found)
    exact ⟨ps, nodes, rfl, named⟩

theorem nodeList (h : v.HasForms) {slot : Slot} (mem : slot ∈ [Slot.prefixItems, .oneOf])
    (each : ∀ nodes, v.slotValue? slot = some (.array nodes) → ∀ u ∈ nodes, ∃ c, u.ReadsAs c) :
    ∃ x, Option.Rel ReadsAsList (v.held? slot) x := by
  refine exists_rel_held?.2 fun u found => (h.lists slot mem u found).imp_right ?_
  rintro ⟨nodes, rfl⟩
  obtain ⟨ss, listed⟩ := exists_forall₂ (each nodes found)
  exact ⟨ss, nodes, rfl, listed⟩

end HasForms

/-- **What belongs to the grammar reads as a node.** -/
theorem Decodable.exists_readsAs (h : v.Decodable) (distinct : v.HasDistinctKeys) :
    ∃ s, v.ReadsAs s := by
  -- by induction on the grammar, with a field for each slot
  induction h with
  | @node v written forms _ _ _ properties items lists =>
    have part : ∀ {slot u k w}, v.slotValue? slot = some u → u.Inside k w → w.HasDistinctKeys :=
      fun found inside => distinct.inside (.deeper (part_of_slotValue? found) inside)
    obtain ⟨u, type, form⟩ := forms.type
    obtain ⟨t, rfl⟩ := exists_eq_toJson_iff.2 form
    obtain ⟨targetType, htargetType⟩ := forms.text .targetType (by decide)
    obtain ⟨title, htitle⟩ := forms.text .title (by decide)
    obtain ⟨description, hdescription⟩ := forms.text .description (by decide)
    obtain ⟨ps, hproperties⟩ := forms.nodeTable fun nodes found m mem =>
      properties nodes found m mem (part found (.deeper ⟨m.1, mem⟩ (.here _)))
    obtain ⟨item, hitems⟩ := exists_rel_held?.2 fun u found =>
      or_iff_not_imp_left.2 fun present => items u found present (part found (.here u))
    have nodeList : ∀ slot ∈ [Slot.prefixItems, .oneOf],
        ∃ x, Option.Rel ReadsAsList (v.held? slot) x := fun slot known =>
      forms.nodeList known fun nodes found u mem =>
        lists slot known nodes found u mem (part found (.deeper mem (.here u)))
    obtain ⟨prefixItems, hprefixItems⟩ := nodeList .prefixItems (by decide)
    obtain ⟨oneOf, honeOf⟩ := nodeList .oneOf (by decide)
    obtain ⟨enum, henum⟩ := forms.textList .enum (by decide)
    obtain ⟨declaredFields, hdeclaredFields⟩ := forms.textList .declaredFields (by decide)
    have fields : v.HasFields ⟨t, targetType, title, description, ps, item, prefixItems, oneOf,
        enum, v.held? .default, declaredFields⟩ :=
      ⟨type, htargetType, htitle, hdescription, hproperties, hitems, hprefixItems, honeOf, henum,
        rfl, hdeclaredFields⟩
    exact ⟨_, (Schema.ofJson_eq_ok_iff_hasFields distinct).2 ⟨written, fields⟩⟩

end Json

/-- **Decoding accepts exactly its grammar**, and the fields of a node are the values at the keys
or places of their slots, with null standing for nothing. -/
theorem decoding_accepts_decodable (d : Json) (distinct : d.HasDistinctKeys) :
    ((∃ s, Schema.ofJson d = .ok s) ↔ d.Decodable) ∧
      ∀ s, Schema.ofJson d = .ok s → d.HasFields s := by
  refine ⟨⟨?_, fun decodable => decodable.exists_readsAs distinct⟩, fun s reads => ?_⟩
  · rintro ⟨s, reads⟩
    exact Json.decodable_of_readsAs distinct reads
  · exact ((Schema.ofJson_eq_ok_iff_hasFields distinct).1 reads).2

/-- A record whose target stands under its second key, with a property written as an array. -/
def lampDocument : Json :=
  .object [("items", .null), ("cpp_type", .string "Lamp"), ("type", .string "object"),
    ("properties", .object
      [("state", .array [.string "string", .null, .string "State of the lamp"])])]

/-- The record with a target under both keys. -/
def lampTwiceTargeted : Json :=
  .object [("target_type", .null), ("type", .string "object"), ("cpp_type", .string "Lamp")]

theorem lampDocument_decodes :
    lampDocument.HasDistinctKeys ∧ lampDocument.Decodable ∧
      (∃ s, Schema.ofJson lampDocument = .ok s ∧ lampDocument.HasFields s) ∧
      lampTwiceTargeted.HasDistinctKeys ∧ ¬ lampTwiceTargeted.Decodable := by
  have distinct : lampDocument.HasDistinctKeys := by
    simp [lampDocument, Json.HasDistinctKeys, Json.MembersHaveDistinctKeys,
      Json.ItemsHaveDistinctKeys]
  have distinct' : lampTwiceTargeted.HasDistinctKeys := by
    simp [lampTwiceTargeted, Json.HasDistinctKeys, Json.MembersHaveDistinctKeys]
  have decoding := decoding_accepts_decodable lampDocument distinct
  refine ⟨distinct, decoding.1.1 ⟨_, rfl⟩, ⟨_, rfl, decoding.2 _ rfl⟩, distinct',
    fun decodable => ?_⟩
  obtain ⟨s, reads⟩ := (decoding_accepts_decodable lampTwiceTargeted distinct').1.2 decodable
  cases reads

end SchemaModel
