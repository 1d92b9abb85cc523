import SchemaModel.Model
import SchemaModel.Proofs.AcceptedNodes
import SchemaModel.Proofs.NestingBounds
import SchemaModel.Proofs.NodeCriteria
import SchemaModel.Schema.ToJson

/-!
# Nodes that are written and read again

A node is written slot by slot, each slot that holds something under its first key.  What is written
into a slot reads there as what the slot holds, except that a default of null would be read as none;
and no node that has been read holds one.  The written form of a node of an accepted document is
accepted in turn and nests as deep as the document does.

* `Schema.written?` — what is written into a slot; `Schema.toJson_eq` — a written form slot by slot;
* `Schema.ofJson_toJson` — a node that has been decoded is written to what decodes to it;
* `Json.Describes.written` — what is written into a slot stands in place of what filled it;
* `Json.Describes.accepts_toJson` — the written form of an accepted node is accepted;
* `Nesting.Pending.Rewrites` — the check comes to the same depths in both;
* `written_form_reads_back` — a decoded node is written to a document that stands for the same.
-/

namespace SchemaModel

open Outcome

/-! ### Written forms, slot by slot -/

namespace Slot

theorem mem_all (slot : Slot) : slot ∈ all := by cases slot <;> decide

theorem key_injective : key.Injective := by
  intro slot slot' same
  exact Option.some.inj ((ofKey?_key slot).symm.trans (same ▸ ofKey?_key slot'))

end Slot

namespace Schema

/-- What is written into a slot, if anything. -/
def written? (s : Schema) : Slot → Option Json
  | .type => some s.type.toJson
  | .targetType => s.targetType.map .string
  | .title => s.title.map .string
  | .description => s.description.map .string
  | .properties =>
    if s.properties.isEmpty then none
    else some (.object (s.properties.map fun p => (p.1, p.2.toJson)))
  | .items => s.items.map toJson
  | .prefixItems => s.prefixItems.map fun nodes => .array (nodes.map toJson)
  | .oneOf => s.oneOf.map fun nodes => .array (nodes.map toJson)
  | .enum => s.enum.map stringsJson
  | .default => s.default
  | .declaredFields => s.declaredFields.map stringsJson

/-- The members of the written form of a node. -/
def writtenMembers (s : Schema) : List (String × Json) :=
  Slot.all.filterMap fun slot => (s.written? slot).map fun v => (slot.key, v)

theorem nodesJson_eq (nodes : List Schema) : nodesJson nodes = nodes.map toJson := by
  induction nodes with
  | nil => rfl
  | cons s rest ih => rw [nodesJson, ih, List.map_cons]

theorem propertiesJson_eq (ps : List (String × Schema)) :
    propertiesJson ps = ps.map fun p => (p.1, p.2.toJson) := by
  induction ps with
  | nil => rfl
  | cons p rest ih => rw [propertiesJson, ih, List.map_cons]

theorem member?_eq (slot : Slot) (v : Option Json) :
    member? slot v = (v.map fun v => (slot.key, v)).toList := by
  cases v <;> rfl

/-- **A node is written slot by slot, in the order of the slots.** -/
theorem toJson_eq (s : Schema) : s.toJson = .object s.writtenMembers := by
  have cons : ∀ (slot : Slot) (rest : List Slot),
      (slot :: rest).filterMap (fun slot => (s.written? slot).map fun v => (slot.key, v)) =
        ((s.written? slot).map fun v => (slot.key, v)).toList ++
          rest.filterMap fun slot => (s.written? slot).map fun v => (slot.key, v) := by
    intro slot rest
    rw [List.filterMap_cons]
    cases s.written? slot <;> rfl
  rw [writtenMembers, Slot.all]
  simp only [cons]
  obtain ⟨type, targetType, title, description, properties, items, prefixItems, oneOf, enum, dflt,
    declaredFields⟩ := s
  rw [toJson.eq_def]
  simp only [member?_eq, nodesJson_eq, propertiesJson_eq, written?]
  cases properties <;> cases items <;> cases prefixItems <;> cases oneOf <;>
    simp

example :
    { Schema.ofTypeName "object" with
      targetType := some "Gauge", default := some .null, declaredFields := some [] }.toJson =
    .object [("type", .string "object"), ("target_type", .string "Gauge"), ("default", .null),
      ("declared_fields", .array [])] := rfl

theorem mem_writtenMembers {s : Schema} {key : String} {v : Json} :
    (key, v) ∈ s.writtenMembers ↔ ∃ slot : Slot, s.written? slot = some v ∧ slot.key = key := by
  rw [writtenMembers, List.mem_filterMap]
  constructor
  · rintro ⟨slot, -, same⟩
    obtain ⟨u, hu, same⟩ := Option.map_eq_some_iff.1 same
    cases same
    exact ⟨slot, hu, rfl⟩
  · rintro ⟨slot, hv, rfl⟩
    exact ⟨slot, slot.mem_all, by rw [hv]; rfl⟩

theorem lookup_writtenMembers (s : Schema) (slot : Slot) :
    s.writtenMembers.lookup slot.key = s.written? slot :=
  lookup_filterMap (Slot.all_nodup.map Slot.key_injective) s.written? slot.mem_all

theorem slots_toJson (s : Schema) :
    s.toJson.slots = Slot.all.filterMap fun slot => (s.written? slot).map fun v => (slot, v) := by
  rw [toJson_eq, Json.slots, writtenMembers, List.filterMap_filterMap]
  refine List.filterMap_congr fun slot _ => ?_
  cases s.written? slot with
  | none => rfl
  | some v => exact congrArg (Option.map fun slot => (slot, v)) slot.ofKey?_key

theorem lookup_slots_toJson (s : Schema) (slot : Slot) :
    s.toJson.slots.lookup slot = s.written? slot := by
  have distinct : (Slot.all.map id).Nodup := by rw [List.map_id]; exact Slot.all_nodup
  rw [slots_toJson]
  exact lookup_filterMap distinct s.written? slot.mem_all

theorem fillsOnce_toJson (s : Schema) : s.toJson.FillsOnce := by
  have once : (s.toJson.slots.map Prod.fst).Nodup := by
    rw [slots_toJson]
    have sublist := map_fst_filterMap_sublist Slot.all id s.written?
    rw [List.map_id] at sublist
    exact Slot.all_nodup.sublist sublist
  rw [toJson_eq] at once ⊢
  exact once

/-! ### What is written reads back -/

theorem strings_stringsJson (ss : List String) : Decode.strings (stringsJson ss) = .ok ss := by
  have each : ∀ i, Decode.stringsFrom i (ss.map .string) = .ok ss := by
    induction ss with
    | nil => exact fun _ => rfl
    | cons s rest ih =>
      intro i
      rw [List.map_cons, Decode.stringsFrom, ih]
      rfl
  exact each 0

theorem typeExpr_toJson (t : TypeExpr) : typeExpr t.toJson = .ok t := by
  cases t with
  | name n => rfl
  | choice names =>
    have read : Decode.strings (.array (names.map .string)) = .ok names := strings_stringsJson names
    rw [TypeExpr.toJson, typeExpr, read]
    intro n same
    cases same

/-- What is written into a slot reads there as what the slot holds. -/
theorem written_gives {s : Schema} (each : ∀ b c, s.Child b c → ofJson c.toJson = .ok c)
    (notNull : s.default ≠ some .null) (slot : Slot) :
    slot.Gives (s.written? slot) (s.get slot) := by
  have nodes : ∀ (branch : Nat → Branch) (ss : List Schema),
      (∀ i c, ss[i]? = some c → s.Child (branch i) c) →
        unlessNull (.array (ss.map toJson)) (readings (.array (ss.map toJson))).nodes =
          .ok (some ss) := by
    intro branch ss child
    refine unlessNull_eq_some.2 ⟨by simp, nodeElements_eq_ok.2 ?_⟩
    refine List.forall₂_map_left_iff.2 (List.forall₂_same.2 fun c mem => ?_)
    obtain ⟨i, hi⟩ := List.mem_iff_getElem?.1 mem
    exact each _ c (child i c hi)
  have text : ∀ x : Option String, Slot.Gives .title (x.map .string) x := by
    rintro (_ | _) <;> rfl
  have strings : ∀ x : Option (List String), Slot.Gives .enum (x.map stringsJson) x := by
    rintro (_ | ss)
    · rfl
    · exact map_eq_ok.2 ⟨ss, strings_stringsJson ss, rfl⟩
  cases slot with
  | type => exact typeExpr_toJson s.type
  | targetType => exact text s.targetType
  | title => exact text s.title
  | description => exact text s.description
  | properties =>
    have table : nodeMembers (s.properties.map fun p => (p.1, p.2.toJson)) = .ok s.properties := by
      refine nodeMembers_eq_ok.2 (List.forall₂_map_left_iff.2 (List.forall₂_same.2 ?_))
      exact fun p mem => ⟨rfl, each (.property p.1) p.2 mem⟩
    rw [written?, get]
    cases hps : s.properties with
    | nil => rfl
    | cons p rest =>
      rw [hps] at table
      exact table
  | items =>
    rw [written?, get]
    cases hc : s.items with
    | none => rfl
    | some c =>
      refine unlessNull_eq_some.2 ⟨?_, each .items c hc⟩
      rw [toJson_eq]
      simp
  | prefixItems =>
    rw [written?, get]
    cases hs : s.prefixItems with
    | none => rfl
    | some ss => exact nodes .prefixItem ss fun i c hi => ⟨ss, hs, hi⟩
  | oneOf =>
    rw [written?, get]
    cases hs : s.oneOf with
    | none => rfl
    | some ss => exact nodes .alternative ss fun i c hi => ⟨ss, hs, hi⟩
  | enum => exact strings s.enum
  | declaredFields => exact strings s.declaredFields
  | default =>
    rw [written?, get]
    cases hv : s.default with
    | none => rfl
    | some v =>
      have kept : defaultValue v = some v := by
        cases v with
        | null => exact absurd hv notNull
        | _ => rfl
      exact congrArg Except.ok kept

/-- **A node that has been decoded, from whatever it was, is written to what decodes to it.** -/
theorem ofJson_toJson {v : Json} {s : Schema} (h : ofJson v = .ok s) :
    ofJson s.toJson = .ok s := by
  -- the value matters only in that no node decodes to a default of null
  induction s using Schema.induction generalizing v with
  | step s ih =>
    have each : ∀ b c, s.Child b c → ofJson c.toJson = .ok c := by
      intro b c child
      obtain ⟨k, w, -, decoded⟩ := exists_inside_of_child h child
      exact ih b c child decoded
    refine ofJson_eq_ok.2 ⟨fillsOnce_toJson s, fun slot => ?_⟩
    rw [lookup_slots_toJson]
    exact written_gives each (fun null => (slot_of_default h null).2 rfl) slot

/-! ### What is written is what was read -/

theorem written?_of_absent {s : Schema} {slot : Slot}
    (absent : slot.absent? = some (s.get slot)) :
    s.written? slot = none := by
  obtain ⟨type, targetType, title, description, properties, items, prefixItems, oneOf, enum, dflt,
    declaredFields⟩ := s
  cases slot <;> cases absent <;> rfl

theorem string_eq_of_optional {u v : Json} {x : Option String}
    (read : Decode.optional Decode.string u = .ok x) (hv : x.map .string = some v) : v = u := by
  obtain ⟨t, rfl, rfl⟩ := Option.map_eq_some_iff.1 hv
  exact (Decode.string_eq_ok.1 (Decode.optional_eq_some.1 read).2).symm

theorem strings_eq_of_optional {u v : Json} {x : Option (List String)}
    (read : Decode.optional Decode.strings u = .ok x) (hv : x.map stringsJson = some v) :
    v = u := by
  obtain ⟨ss, rfl, rfl⟩ := Option.map_eq_some_iff.1 hv
  exact (Decode.strings_eq_ok.1 (Decode.optional_eq_some.1 read).2).symm

/-- What is written into a slot without child nodes is what filled it. -/
theorem written_literal {s : Schema} {slot : Slot} {u v : Json}
    (read : slot.read u = .ok (s.get slot)) (hv : s.written? slot = some v)
    (literal : (Nesting.Role.node.ofMember slot.key).1 = .literal) : v = u := by
  cases slot with
  | type =>
    cases hv
    rcases typeExpr_eq_ok.1 read with ⟨n, rfl, same⟩ | ⟨names, rfl, same⟩
    · exact congrArg TypeExpr.toJson same
    · exact congrArg TypeExpr.toJson same
  | targetType | title | description => exact string_eq_of_optional read hv
  | enum | declaredFields => exact strings_eq_of_optional read hv
  | default =>
    have same : defaultValue u = some v := (Except.ok.inj read).trans hv
    cases u <;> cases same <;> rfl
  | items | prefixItems | oneOf | properties => cases literal

end Schema

/-! ### Written forms beside documents -/

/-- What is written in place of a value, by the role of the value: a node that the value describes,
a list or a table of such nodes, or the value itself. -/
def Nesting.Role.Rewrites : Nesting.Role → Json → Json → Prop
  | .node, v, u => ∃ s, v = s.toJson ∧ u.Describes s
  | .nodeList, v, u => ∃ ss us, v = .array (ss.map Schema.toJson) ∧ u = .array us ∧
      List.Forall₂ Json.Describes us ss
  | .nodeTable, v, u => ∃ ps ms, v = .object (ps.map fun p => (p.1, p.2.toJson)) ∧ u = .object ms ∧
      NamedForall₂ Json.Describes ms ps
  | .literal, v, u => v = u

namespace Nesting.Role

open MetaSchema

/-- A written list of nodes stands in place of the list that they are decoded from. -/
theorem rewrites_list {key : String} (hkey : key = "prefixItems" ∨ key = "oneOf") {u v : Json}
    {nodes : Option (List Schema)} (fine : memberViolations key u = [])
    (distinct : u.HasDistinctKeys)
    (read : Schema.unlessNull u (Schema.readings u).nodes = .ok nodes)
    (hv : (nodes.map fun nodes => Json.array (nodes.map Schema.toJson)) = some v) :
    nodeList.Rewrites v u := by
  obtain ⟨us, rfl, -, accepted⟩ := (memberViolations_list hkey).1 fine
  obtain ⟨ss, rfl, rfl⟩ := Option.map_eq_some_iff.1 hv
  have decoded := Schema.nodeElements_eq_ok.1 (Schema.unlessNull_eq_some.1 read).2
  have each : ∀ w ∈ us, Accepts w ∧ w.HasDistinctKeys := fun w mem =>
    ⟨accepted w mem, Json.itemsHaveDistinctKeys_iff.1 distinct w mem⟩
  refine ⟨ss, us, rfl, rfl, .imp ?_ ((List.forall₂_and_left _ _).2 ⟨each, decoded⟩)⟩
  exact fun w c ⟨⟨accepted, distinct⟩, decoded⟩ => ⟨accepted, distinct, decoded⟩

/-- A written table of nodes stands in place of the table that they are decoded from. -/
theorem rewrites_table {u : Json} {ps : List (String × Schema)}
    (fine : memberViolations "properties" u = []) (distinct : u.HasDistinctKeys)
    (read : (Schema.readings u).nodeTable () = .ok ps) :
    nodeTable.Rewrites (.object (ps.map fun p => (p.1, p.2.toJson))) u := by
  obtain ⟨ms, rfl, accepted⟩ := memberViolations_table.1 fine
  have decoded := Schema.nodeMembers_eq_ok.1 read
  have each : ∀ m ∈ ms, Accepts m.2 ∧ m.2.HasDistinctKeys := fun m mem =>
    ⟨accepted m mem, Json.membersHaveDistinctKeys_iff.1 distinct.2 m mem⟩
  refine ⟨ps, ms, rfl, rfl, .imp ?_ ((List.forall₂_and_left _ _).2 ⟨each, decoded⟩)⟩
  exact fun m p ⟨⟨accepted, distinct⟩, named, decoded⟩ => ⟨named, accepted, distinct, decoded⟩

end Nesting.Role

namespace Json.Describes

open MetaSchema Nesting

variable {members : List (String × Json)} {s : Schema}

/-- **What is written into a slot stands in place of the value that filled it.** -/
theorem written (h : (Json.object members).Describes s) {slot : Slot} {v : Json}
    (hv : s.written? slot = some v) :
    ∃ key u, (key, u) ∈ members ∧ Slot.ofKey? key = some slot ∧ memberViolations key u = [] ∧
      (Role.node.ofMember slot.key).1.Rewrites v u := by
  rcases h.filled slot with absent | ⟨key, u, mem, hkey, fine, read⟩
  · cases (Schema.written?_of_absent absent).symm.trans hv
  refine ⟨key, u, mem, hkey, fine, ?_⟩
  have distinct : u.HasDistinctKeys := h.distinct.inside (.deeper ⟨key, mem⟩ (.here u))
  cases slot with
  | items =>
    obtain rfl := Branch.ofKey?_eq_slot (b := .items) |>.1 hkey
    obtain ⟨c, hc, rfl⟩ := Option.map_eq_some_iff.1 hv
    change Schema.unlessNull u (Schema.readings u).node = .ok s.items at read
    rw [hc] at read
    exact ⟨c, rfl, fine, distinct, (Schema.unlessNull_eq_some.1 read).2⟩
  | prefixItems =>
    obtain rfl := Branch.ofKey?_eq_slot (b := .prefixItem 0) |>.1 hkey
    exact Role.rewrites_list (.inl rfl) fine distinct read hv
  | oneOf =>
    obtain rfl := Branch.ofKey?_eq_slot (b := .alternative 0) |>.1 hkey
    exact Role.rewrites_list (.inr rfl) fine distinct read hv
  | properties =>
    obtain rfl := Branch.ofKey?_eq_slot (b := .property "") |>.1 hkey
    have same : some (Json.object (s.properties.map fun p => (p.1, p.2.toJson))) = some v := by
      by_cases none : s.properties.isEmpty = true
      · rw [Schema.written?, if_pos none] at hv
        cases hv
      · rwa [Schema.written?, if_neg none] at hv
    cases same
    exact Role.rewrites_table fine distinct read
  | _ => exact Schema.written_literal read hv rfl

end Json.Describes

/-! ### Written forms are accepted -/

namespace MetaSchema

open Nesting

/-- What stands in place of an accepted value is accepted in its slot. -/
theorem memberViolations_of_rewrites {slot : Slot} {v u : Json}
    (fine : memberViolations slot.key u = [])
    (rewrites : (Role.node.ofMember slot.key).1.Rewrites v u)
    (each : ∀ k w c, u.Inside k w → w.Describes c → Accepts c.toJson) :
    memberViolations slot.key v = [] := by
  cases slot with
  | items =>
    obtain ⟨c, rfl, describes⟩ := rewrites
    exact each 0 u c (.here u) describes
  | prefixItems | oneOf =>
    obtain ⟨ss, us, rfl, rfl, describes⟩ := rewrites
    obtain ⟨items, same, nonempty, -⟩ := (memberViolations_list (by decide)).1 fine
    cases same
    refine (memberViolations_list (by decide)).2
      ⟨_, rfl, fun none => nonempty ?_, List.forall_mem_map.2 fun c mem => ?_⟩
    · cases List.map_eq_nil_iff.1 none
      cases describes
      rfl
    · obtain ⟨i, hi⟩ := List.mem_iff_getElem?.1 mem
      obtain ⟨w, hw, hc⟩ := Forall₂.getElem?_right describes hi
      exact each 1 w c (.deeper (List.mem_of_getElem? hw) (.here w)) hc
  | properties =>
    obtain ⟨ps, ms, rfl, rfl, describes⟩ := rewrites
    refine memberViolations_table.2 ⟨_, rfl, List.forall_mem_map.2 fun p mem => ?_⟩
    obtain ⟨w, hw, hc⟩ := describes.mem_right mem
    exact each 1 w p.2 (.deeper ⟨p.1, hw⟩ (.here w)) hc
  | _ =>
    obtain rfl : v = u := rewrites
    exact fine

end MetaSchema

open MetaSchema in
/-- **The written form of a node of an accepted document is accepted.** -/
theorem Json.Describes.accepts_toJson {d : Json} {s : Schema} (h : d.Describes s) :
    Accepts s.toJson := by
  induction d using Json.induction generalizing s with
  | step d ih =>
    obtain ⟨members, rfl⟩ := h.accepted.exists_object
    have rules := h.keepsRules
    -- what is found under the keys that the rules name
    have type : s.writtenMembers.lookup "type" = some s.type.toJson :=
      s.lookup_writtenMembers .type
    have items : s.writtenMembers.lookup "items" = s.items.map Schema.toJson :=
      s.lookup_writtenMembers .items
    have prefixItems : s.writtenMembers.lookup "prefixItems" =
        s.prefixItems.map fun nodes => .array (nodes.map Schema.toJson) :=
      s.lookup_writtenMembers .prefixItems
    have oneOf : s.writtenMembers.lookup "oneOf" =
        s.oneOf.map fun nodes => .array (nodes.map Schema.toJson) :=
      s.lookup_writtenMembers .oneOf
    have single : ∀ n, some s.type.toJson = some (.string n) ↔ s.type = .name n := by
      intro n
      cases s.type <;> simp [TypeExpr.toJson]
    rw [Schema.toJson_eq, accepts_object]
    refine ⟨by rw [type]; rfl, fun key _ v hv => ?_, ?_, ?_⟩
    · obtain ⟨slot, filled, rfl⟩ := Schema.mem_writtenMembers.1 (mem_of_lookup hv)
      obtain ⟨key, u, mem, hkey, fine, rewrites⟩ := h.written filled
      rw [memberViolations_of_ofKey? hkey] at fine
      refine memberViolations_of_rewrites fine rewrites fun k w c inside describes => ?_
      exact ih k w (.deeper ⟨key, mem⟩ inside) describes
    · rw [type, single, items, prefixItems, Option.isSome_map, Option.isSome_map]
      exact rules.array
    · rw [type, single, oneOf, Option.isSome_map]
      exact rules.object

/-! ### Written forms nest as deep -/

namespace Nesting

/-- The two keys of a slot lead to values of one role. -/
theorem Role.ofMember_of_ofKey? {key : String} {slot : Slot} (hkey : Slot.ofKey? key = some slot) :
    Role.node.ofMember key = Role.node.ofMember slot.key := by
  rcases Slot.ofKey?_eq_some.1 hkey with rfl | ⟨rfl, rfl⟩ | ⟨rfl, rfl⟩ <;> rfl

/-- A value to be looked at stands in place of another at the same depths. -/
structure Pending.Rewrites (p' p : Pending) : Prop where
  role : p'.role = p.role
  nodeDepth : p'.nodeDepth = p.nodeDepth
  rawDepth : p'.rawDepth = p.rawDepth
  value : p.role.Rewrites p'.value p.value

namespace Pending.Rewrites

variable {p' p q' : Pending}

theorem member (h : p'.Rewrites p) {key key' : String} {v u : Json}
    (same : p.role.ofMember key' = p.role.ofMember key)
    (value : (p.role.ofMember key).1.Rewrites v u) :
    (p'.ofMember (key', v)).Rewrites (p.ofMember (key, u)) := by
  refine ⟨?_, ?_, congrArg (· + 1) h.rawDepth, value⟩
  · rw [role_ofMember, role_ofMember, h.role, same]
  · rw [nodeDepth_ofMember, nodeDepth_ofMember, h.role, h.nodeDepth, same]

theorem element (h : p'.Rewrites p) {v u : Json} (i : Nat)
    (value : p.role.ofElement.1.Rewrites v u) :
    (p'.ofElement v i).Rewrites (p.ofElement u i) := by
  refine ⟨?_, ?_, congrArg (· + 1) h.rawDepth, value⟩
  · rw [role_ofElement, role_ofElement, h.role]
  · rw [nodeDepth_ofElement, nodeDepth_ofElement, h.role, h.nodeDepth]

/-- **One step of the check**: what it comes to in a written form stands in place of what it comes
to in the document. -/
theorem child (h : p'.Rewrites p) (child : q' ∈ p'.children) : ∃ q ∈ p.children, q'.Rewrites q := by
  have value := h.value
  cases role : p.role with
  | node =>
    rw [role] at value
    obtain ⟨s, written, describes⟩ := value
    obtain ⟨members, hp⟩ := describes.accepted.exists_object
    rw [hp] at describes
    rw [Schema.toJson_eq] at written
    obtain ⟨⟨key, v⟩, mem, rfl⟩ := (mem_children_object written).1 child
    obtain ⟨slot, hv, rfl⟩ := Schema.mem_writtenMembers.1 mem
    obtain ⟨key, u, mem, hkey, -, rewrites⟩ := describes.written hv
    rw [← Role.ofMember_of_ofKey? hkey, ← role] at rewrites
    have same : p.role.ofMember slot.key = p.role.ofMember key := by
      rw [role, Role.ofMember_of_ofKey? hkey]
    exact ⟨_, ofMember_mem_children hp mem, h.member same rewrites⟩
  | nodeList =>
    rw [role] at value
    obtain ⟨ss, us, written, hp, describes⟩ := value
    obtain ⟨i, v, hi, rfl⟩ := (mem_children_array written).1 child
    rw [List.getElem?_map] at hi
    obtain ⟨c, hc, rfl⟩ := Option.map_eq_some_iff.1 hi
    obtain ⟨u, hu, hc⟩ := Forall₂.getElem?_right describes hc
    refine ⟨_, ofElement_mem_children hp hu, h.element i ?_⟩
    rw [role]
    exact ⟨c, rfl, hc⟩
  | nodeTable =>
    rw [role] at value
    obtain ⟨ps, ms, written, hp, describes⟩ := value
    obtain ⟨⟨key, v⟩, mem, rfl⟩ := (mem_children_object written).1 child
    obtain ⟨⟨name, c⟩, named, same⟩ := List.mem_map.1 mem
    cases same
    obtain ⟨u, hu, hc⟩ := describes.mem_right named
    refine ⟨_, ofMember_mem_children hp hu, h.member rfl ?_⟩
    rw [role]
    exact ⟨c, rfl, hc⟩
  | literal =>
    rw [role] at value
    have same : p'.value = p.value := value
    cases hp : p.value with
    | object members =>
      obtain ⟨⟨key, v⟩, mem, rfl⟩ := (mem_children_object (same.trans hp)).1 child
      refine ⟨_, ofMember_mem_children hp mem, h.member rfl ?_⟩
      rw [role]
      exact rfl
    | array items =>
      obtain ⟨i, v, hi, rfl⟩ := (mem_children_array (same.trans hp)).1 child
      refine ⟨_, ofElement_mem_children hp hi, h.element i ?_⟩
      rw [role]
      exact rfl
    | _ =>
      rw [children, same, hp] at child
      cases child

/-- **Along a whole run of the check**, what it comes to stands in place of what it comes to in the
document. -/
theorem leads (h : p'.Rewrites p) (run : p'.Leads q') : ∃ q, p.Leads q ∧ q'.Rewrites q := by
  -- by induction on the steps in the written form, each matched by one in the document
  induction run with
  | refl => exact ⟨p, .refl, h⟩
  | tail _ child ih =>
    obtain ⟨q, run, h⟩ := ih
    obtain ⟨r, child, h⟩ := h.child child
    exact ⟨r, run.tail child, h⟩

end Pending.Rewrites

/-- **The written form of a node nests as deep as the document.** -/
theorem check_toJson {d : Json} {s : Schema} (h : d.Describes s) (passed : check d = .ok ()) :
    check s.toJson = .ok () := by
  have rewrites : (Pending.root s.toJson).Rewrites (Pending.root d) :=
    ⟨rfl, rfl, rfl, s, rfl, h⟩
  refine checkAll_of_fine fun p mem q run => ?_
  obtain rfl := List.mem_singleton.1 mem
  obtain ⟨r, run, h⟩ := rewrites.leads run
  have fine := violation?_eq_none (checkAll_eq_ok passed _ List.mem_cons_self r run)
  exact violation?_of_le (h.nodeDepth ▸ fine.1) (h.rawDepth ▸ fine.2)

end Nesting

/-! ### Written forms compile to the same -/

/-- **A decoded node is written to a document that stands for the same.**  It reads as the same
node, whatever the node was decoded from; and if that passes the checks, the written form does so
and compiles to the same. -/
theorem written_form_reads_back (d : Json) (n : Schema) (decoded : Schema.ofJson d = .ok n) :
    Schema.ofJson n.toJson = .ok n ∧
    (d.HasDistinctKeys → Nesting.check d = .ok () → Validator.metaSchema d = .ok () →
      Nesting.check n.toJson = .ok () ∧ Validator.metaSchema n.toJson = .ok () ∧
      ∀ options, compile options Validator.metaSchema n.toJson =
        compile options Validator.metaSchema d) := by
  have back := Schema.ofJson_toJson decoded
  refine ⟨back, fun distinct passed accepted => ?_⟩
  have describes : d.Describes n :=
    ⟨MetaSchema.metaSchema_eq_ok.1 accepted, distinct, decoded⟩
  have passed' := Nesting.check_toJson describes passed
  have accepted' := MetaSchema.metaSchema_eq_ok.2 describes.accepts_toJson
  refine ⟨passed', accepted', fun options => ?_⟩
  rw [compile_eq_of_read passed' accepted' back, compile_eq_of_read passed accepted decoded]

/-- A record of one level whose target stands under its second key, beside a note. -/
def gaugeDocument : Json :=
  .object [("note", .string "read hourly"), ("cpp_type", .string "Gauge"),
    ("properties", .object
      [("level", .object [("default", .null), ("type", .string "number")])]),
    ("type", .string "object"), ("cpp_fields", .array [.string "level"])]

/-- The node of the record. -/
def gauge : Schema :=
  { Schema.ofTypeName "object" with
    targetType := some "Gauge"
    properties := [("level", Schema.ofTypeName "number")]
    declaredFields := some ["level"] }

theorem gauge_reads_back :
    Schema.ofJson gaugeDocument = .ok gauge ∧ Schema.ofJson gauge.toJson = .ok gauge ∧
      gaugeDocument.HasDistinctKeys ∧ Nesting.check gauge.toJson = .ok () ∧
      Validator.metaSchema gauge.toJson = .ok () ∧
      ∀ options, compile options Validator.metaSchema gauge.toJson =
        compile options Validator.metaSchema gaugeDocument := by
  have decoded : Schema.ofJson gaugeDocument = .ok gauge := rfl
  have distinct : gaugeDocument.HasDistinctKeys := by
    simp [gaugeDocument, Json.HasDistinctKeys, Json.MembersHaveDistinctKeys,
      Json.ItemsHaveDistinctKeys]
  have passed : Nesting.check gaugeDocument = .ok () := by cbv
  have back := written_form_reads_back gaugeDocument gauge decoded
  exact ⟨decoded, back.1, distinct, back.2 distinct passed rfl⟩

end SchemaModel
