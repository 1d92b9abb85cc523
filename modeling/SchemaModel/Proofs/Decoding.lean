import SchemaModel.Proofs.Outcome
import SchemaModel.Proofs.Walk
import SchemaModel.Schema.OfJson

/-!
# What a decoded node holds

A node is written as an object or as an array; either way the written form fills slots with values,
and each slot of the decoded node is what the value in it reads as, or what an unfilled slot holds.
The eleven slots are treated alike: `Slot.Content` is what a slot holds, `Slot.read` how a value
reads in it, and the draft, the node and the written form are all looked at slot by slot.

* `Slot.Content`, `Slot.read`, `Slot.absent?` — the contents of slots;
* `Json.slots` — the values that a written node puts into its slots;
* `Schema.fillMembers_eq_ok`, `Schema.fillMembers_eq_error` — how the reading of an object ends;
* `Schema.nodes_eq_ok`, `Schema.nodeTable_eq_ok` — what reads as a list or a table of nodes;
* `Schema.ofJson_gives` — every slot of a decoded node is what its value gives;
* `Schema.exists_inside_of_child` — every child node is decoded from a value inside;
* `Schema.exists_jsonChild_of_child`, `Schema.exists_child_of_jsonChild` — the child nodes of a
  node written as an object are the decoded child nodes of the written form.
-/

namespace SchemaModel

open Outcome

/-! ### Slots and their contents -/

namespace Slot

/-- What a slot of a node holds. -/
def Content : Slot → Type
  | .type => TypeExpr
  | .targetType | .title | .description => Option String
  | .properties => List (String × Schema)
  | .items => Option Schema
  | .prefixItems | .oneOf => Option (List Schema)
  | .enum | .declaredFields => Option (List String)
  | .default => Option Json

/-- How a value reads in a slot. -/
def read : (slot : Slot) → Json → Except DecodeError slot.Content
  | .type, v => Schema.typeExpr v
  | .targetType, v | .title, v | .description, v => Decode.optional Decode.string v
  | .properties, v => (Schema.readings v).nodeTable ()
  | .items, v => Schema.unlessNull v (Schema.readings v).node
  | .prefixItems, v | .oneOf, v => Schema.unlessNull v (Schema.readings v).nodes
  | .enum, v | .declaredFields, v => Decode.optional Decode.strings v
  | .default, v => .ok (Schema.defaultValue v)

/-- What a slot holds that no value fills; the type cannot be left out. -/
def absent? : (slot : Slot) → Option slot.Content
  | .type => none
  | .properties => some []
  | .targetType | .title | .description => some none
  | .items | .prefixItems | .oneOf | .enum | .default | .declaredFields => some none

/-- What a slot holds, given the value that is put into it, if any. -/
def Gives (slot : Slot) (v : Option Json) (x : slot.Content) : Prop :=
  match v with
  | some v => slot.read v = .ok x
  | none => slot.absent? = some x

theorem all_nodup : all.Nodup := by decide

theorem ofKey?_eq_some {key : String} {slot : Slot} :
    ofKey? key = some slot ↔ key = slot.key ∨
      (slot = .targetType ∧ key = "cpp_type") ∨ (slot = .declaredFields ∧ key = "cpp_fields") := by
  constructor
  · intro h
    unfold ofKey? at h
    split at h <;> cases h <;> simp [Slot.key]
  · rintro (rfl | ⟨rfl, rfl⟩ | ⟨rfl, rfl⟩)
    · exact ofKey?_key slot
    · rfl
    · rfl

end Slot

/-- The slots of child nodes have one key each. -/
theorem Branch.ofKey?_eq_slot {b : Branch} {key : String} :
    Slot.ofKey? key = some b.slot ↔ key = b.slot.key := by
  rw [Slot.ofKey?_eq_some]
  cases b <;> simp [Branch.slot]

namespace Schema

/-- What a slot of a node holds. -/
def get (s : Schema) : (slot : Slot) → slot.Content
  | .type => s.type
  | .targetType => s.targetType
  | .title => s.title
  | .description => s.description
  | .properties => s.properties
  | .items => s.items
  | .prefixItems => s.prefixItems
  | .oneOf => s.oneOf
  | .enum => s.enum
  | .default => s.default
  | .declaredFields => s.declaredFields

namespace Draft

/-- What a slot of a draft holds, if it has been filled. -/
def get (d : Draft) : (slot : Slot) → Option slot.Content
  | .type => d.type
  | .targetType => d.targetType
  | .title => d.title
  | .description => d.description
  | .properties => d.properties
  | .items => d.items
  | .prefixItems => d.prefixItems
  | .oneOf => d.oneOf
  | .enum => d.enum
  | .default => d.default
  | .declaredFields => d.declaredFields

theorem isFilled_eq (d : Draft) (slot : Slot) : d.isFilled slot = (d.get slot).isSome := by
  cases slot <;> rfl

theorem get_empty (slot : Slot) : ({} : Draft).get slot = none := by cases slot <;> rfl

/-- Filling a slot reads the value and leaves all other slots as they are. -/
theorem fill_eq_ok {d d' : Draft} {slot : Slot} {v : Json}
    (h : d.fill slot v (readings v) = .ok d') :
    (∃ x, slot.read v = .ok x ∧ d'.get slot = some x) ∧
      ∀ other, other ≠ slot → d'.get other = d.get other := by
  cases slot with
  | default =>
    cases h
    refine ⟨⟨_, rfl, rfl⟩, fun other ne => ?_⟩
    cases other <;> first | rfl | exact absurd rfl ne
  | _ =>
    obtain ⟨x, hx, rfl⟩ := map_eq_ok.1 h
    refine ⟨⟨x, hx, rfl⟩, fun other ne => ?_⟩
    cases other <;> first | rfl | exact absurd rfl ne

theorem fill_eq_error {d : Draft} {slot : Slot} {v : Json} {e : DecodeError} :
    d.fill slot v (readings v) = .error e ↔ slot.read v = .error e := by
  cases slot with
  | default => constructor <;> intro h <;> cases h
  | _ => exact map_eq_error

theorem or_some_none {α : Type} (x : Option (Option α)) : x.or (some none) = some x.join := by
  cases x <;> rfl

/-- A finished draft holds what its filled slots hold, and elsewhere what unfilled slots hold. -/
theorem finish_eq_ok {d : Draft} {s : Schema} (h : d.finish = .ok s) (slot : Slot) :
    (d.get slot).or slot.absent? = some (s.get slot) := by
  unfold finish at h
  split at h
  · cases h
  · rename_i type htype
    cases h
    cases slot with
    | type => rw [show d.get .type = some type from htype]; rfl
    | properties =>
      show d.properties.or (some []) = some (d.properties.getD [])
      cases d.properties <;> rfl
    | _ => exact or_some_none _

theorem finish_eq_error {d : Draft} {e : DecodeError} :
    d.finish = .error e ↔ d.type = none ∧ e = .here (.missingField Slot.type.key) := by
  unfold finish
  cases d.type with
  | none => simp [@eq_comm _ e]
  | some type => simp

end Draft

/-! ### The slots of a written node -/

end Schema

/-- The values that a written node puts into its slots, in order. -/
def Json.slots : Json → List (Slot × Json)
  | .object members => members.filterMap fun m => (Slot.ofKey? m.1).map fun slot => (slot, m.2)
  | .array items => Slot.all.zip items
  | _ => []

theorem Json.mem_slots_object {members : List (String × Json)} {slot : Slot} {u : Json} :
    (slot, u) ∈ (Json.object members).slots ↔
      ∃ key, (key, u) ∈ members ∧ Slot.ofKey? key = some slot := by
  simp [Json.slots]

/-- No two keys of an object fill the same slot if no slot is filled twice. -/
theorem Json.key_eq_of_slots_nodup {members : List (String × Json)}
    (apart : ((Json.object members).slots.map Prod.fst).Nodup) {m m' : String × Json}
    (hm : m ∈ members) (hm' : m' ∈ members) {slot : Slot} (hkey : Slot.ofKey? m.1 = some slot)
    (hkey' : Slot.ofKey? m'.1 = some slot) : m.1 = m'.1 := by
  by_contra different
  rw [Json.slots, List.Nodup, List.pairwise_map, List.pairwise_filterMap] at apart
  have symmetric : Std.Symm fun m m' : String × Json =>
      ∀ x, (Slot.ofKey? m.1).map (fun slot => (slot, m.2)) = some x →
        ∀ y, (Slot.ofKey? m'.1).map (fun slot => (slot, m'.2)) = some y → x.1 ≠ y.1 :=
    ⟨fun m m' ne x hx y hy => (ne y hy x hx).symm⟩
  have ne := apart.forall hm hm' fun same => different (congrArg Prod.fst same)
  exact ne (slot, m.2) (by rw [hkey]; rfl) (slot, m'.2) (by rw [hkey']; rfl) rfl

theorem Json.part_of_mem_slots {v u : Json} {slot : Slot} (h : (slot, u) ∈ v.slots) : v.Part u := by
  cases v with
  | object members =>
    obtain ⟨key, mem, -⟩ := Json.mem_slots_object.1 h
    exact ⟨key, mem⟩
  | array items => exact (List.of_mem_zip h).2
  | _ => cases h

namespace Schema

/-- The readings of values into slots take one draft to another, and what they do to a slot is what
the first value for it does. -/
def Draft.FilledBy (d : Draft) (values : List (Slot × Json)) (d' : Draft) : Prop :=
  ∀ slot, match values.lookup slot with
    | some v => ∃ x, slot.read v = .ok x ∧ d'.get slot = some x
    | none => d'.get slot = d.get slot

/-- A first value fills its slot; if no other value is meant for that slot, it stays. -/
theorem Draft.FilledBy.cons {d d₁ d' : Draft} {slot : Slot} {v : Json}
    {values : List (Slot × Json)} (first : d.fill slot v (readings v) = .ok d₁)
    (rest : d₁.FilledBy values d') (unique : values.lookup slot = none) :
    d.FilledBy ((slot, v) :: values) d' := by
  obtain ⟨⟨x, hx, hslot⟩, others⟩ := Draft.fill_eq_ok first
  intro other
  have hother := rest other
  by_cases same : other = slot
  · subst same
    rw [unique] at hother
    rw [List.lookup_cons_self]
    exact ⟨x, hx, hother.trans hslot⟩
  · rw [List.lookup_cons, beq_false_of_ne same]
    cases hl : values.lookup other with
    | some u => rw [hl] at hother; exact hother
    | none =>
      rw [hl] at hother
      exact hother.trans (others other same)

theorem fillMembers_cons (d : Draft) (key : String) (v : Json) (rest : List (String × Json)) :
    fillMembers d ((key, v) :: rest) =
      match Slot.ofKey? key with
      | none => fillMembers d rest
      | some slot =>
        if (d.get slot).isSome then .error (.here (.duplicateField slot.key))
        else Decode.at_ (.key key) (d.fill slot v (readings v)) >>= (fillMembers · rest) := by
  rw [fillMembers]
  cases Slot.ofKey? key with
  | none => rfl
  | some slot =>
    simp only [Draft.isFilled_eq]
    cases Decode.at_ (.key key) (d.fill slot v (readings v)) <;> rfl

theorem fillElements_cons (d : Draft) (i : Nat) (v : Json) (rest : List Json) :
    fillElements d i (v :: rest) =
      match Slot.all[i]? with
      | none => .ok d
      | some slot =>
        Decode.at_ (.index i) (d.fill slot v (readings v)) >>= (fillElements · (i + 1) rest) := by
  rw [fillElements]
  cases Slot.all[i]? with
  | none => rfl
  | some slot =>
    simp only
    cases Decode.at_ (.index i) (d.fill slot v (readings v)) <;> rfl

/-- **Reading an object fills the slots of its members**, and no slot twice. -/
theorem fillMembers_eq_ok {d d' : Draft} {ms : List (String × Json)}
    (h : fillMembers d ms = .ok d') :
    d.FilledBy (Json.object ms).slots d' ∧
      (∀ slot ∈ (Json.object ms).slots.map Prod.fst, d.get slot = none) ∧
      ((Json.object ms).slots.map Prod.fst).Nodup := by
  induction ms generalizing d with
  | nil =>
    cases h
    exact ⟨fun slot => rfl, by simp [Json.slots], List.nodup_nil⟩
  | cons m ms ih =>
    obtain ⟨key, v⟩ := m
    rw [fillMembers_cons] at h
    cases hkey : Slot.ofKey? key with
    | none =>
      have same : (Json.object ((key, v) :: ms)).slots = (Json.object ms).slots := by
        simp [Json.slots, hkey]
      rw [hkey] at h
      rw [same]
      exact ih h
    | some slot =>
      have grown : (Json.object ((key, v) :: ms)).slots = (slot, v) :: (Json.object ms).slots := by
        simp [Json.slots, hkey]
      rw [hkey] at h
      simp only at h
      split at h
      · cases h
      · rename_i unfilled
        have hslot : d.get slot = none := by simpa using unfilled
        obtain ⟨d₁, hd, h⟩ := bind_eq_ok.1 h
        obtain ⟨filled, free, nodup⟩ := ih h
        obtain ⟨⟨x, -, hx⟩, others⟩ := Draft.fill_eq_ok (mapError_eq_ok.1 hd)
        have fresh : slot ∉ (Json.object ms).slots.map Prod.fst := by
          intro mem
          have := free slot mem
          rw [hx] at this
          cases this
        rw [grown, List.map_cons]
        refine ⟨filled.cons (mapError_eq_ok.1 hd) (lookup_eq_none.2 fresh), ?_,
          List.nodup_cons.2 ⟨fresh, nodup⟩⟩
        intro other mem
        rcases List.mem_cons.1 mem with rfl | mem
        · exact hslot
        · have ne : other ≠ slot := fun same => fresh (same ▸ mem)
          rw [← others other ne]
          exact free other mem

/-- **Reading an object fails at the first member that fails**: its slot has been filled before, or
its value does not read. -/
theorem fillMembers_eq_error {d : Draft} {ms : List (String × Json)} {e : DecodeError}
    (h : fillMembers d ms = .error e) :
    ∃ before key v after d₁ slot, ms = before ++ (key, v) :: after ∧
      fillMembers d before = .ok d₁ ∧ Slot.ofKey? key = some slot ∧
      (((d₁.get slot).isSome ∧ e = .here (.duplicateField slot.key)) ∨
        ∃ e', slot.read v = .error e' ∧ e = e'.under (.key key)) := by
  induction ms generalizing d with
  | nil => cases h
  | cons m ms ih =>
    obtain ⟨key, v⟩ := m
    rw [fillMembers_cons] at h
    cases hkey : Slot.ofKey? key with
    | none =>
      rw [hkey] at h
      obtain ⟨before, key', v', after, d₁, slot', rfl, hbefore, rest⟩ := ih h
      refine ⟨(key, v) :: before, key', v', after, d₁, slot', rfl, ?_, rest⟩
      rw [fillMembers_cons, hkey]
      exact hbefore
    | some slot =>
      rw [hkey] at h
      simp only at h
      split at h
      · rename_i filled
        cases h
        exact ⟨[], key, v, ms, d, slot, rfl, rfl, hkey, .inl ⟨filled, rfl⟩⟩
      · rename_i unfilled
        rcases bind_eq_error.1 h with first | ⟨d₁, hd, later⟩
        · obtain ⟨e', he, rfl⟩ := mapError_eq_error.1 first
          exact ⟨[], key, v, ms, d, slot, rfl, rfl, hkey, .inr ⟨e', Draft.fill_eq_error.1 he, rfl⟩⟩
        · obtain ⟨before, key', v', after, d₂, slot', rfl, hbefore, rest⟩ := ih later
          refine ⟨(key, v) :: before, key', v', after, d₂, slot', rfl, ?_, rest⟩
          rw [fillMembers_cons, hkey]
          simp only [if_neg unfilled]
          exact bind_eq_ok.2 ⟨d₁, hd, hbefore⟩

/-- Reading an array fills the slots from an index on with its elements. -/
theorem fillElements_eq_ok {d d' : Draft} {i : Nat} {vs : List Json}
    (h : fillElements d i vs = .ok d') : d.FilledBy ((Slot.all.drop i).zip vs) d' := by
  induction vs generalizing d i with
  | nil =>
    cases h
    intro slot
    simp
  | cons v vs ih =>
    rw [fillElements_cons] at h
    cases hslot : Slot.all[i]? with
    | none =>
      rw [hslot] at h
      cases h
      rw [List.drop_eq_nil_of_le (List.getElem?_eq_none_iff.1 hslot)]
      exact fun slot => rfl
    | some slot =>
      rw [hslot] at h
      obtain ⟨d₁, hd, later⟩ := bind_eq_ok.1 h
      obtain ⟨hi, rfl⟩ := List.getElem?_eq_some_iff.1 hslot
      have different : Slot.all[i] ∉ Slot.all.drop (i + 1) := by
        have nodup : (Slot.all.drop i).Nodup := Slot.all_nodup.sublist (List.drop_sublist i _)
        rw [List.drop_eq_getElem_cons hi] at nodup
        exact (List.nodup_cons.1 nodup).1
      rw [List.drop_eq_getElem_cons hi, List.zip_cons_cons]
      refine Draft.FilledBy.cons (mapError_eq_ok.1 hd) (ih later)
        (lookup_eq_none.2 fun mem => different ?_)
      obtain ⟨⟨slot, u⟩, mem, rfl⟩ := List.mem_map.1 mem
      exact (List.of_mem_zip mem).1

/-! ### The slots of a decoded node -/

theorem exists_draft_of_ofJson {v : Json} {s : Schema} (h : ofJson v = .ok s) :
    ∃ d, Draft.FilledBy {} v.slots d ∧ d.finish = .ok s := by
  cases v with
  | object members =>
    obtain ⟨d, hd, hs⟩ := bind_eq_ok.1 h
    exact ⟨d, (fillMembers_eq_ok hd).1, hs⟩
  | array items =>
    simp only [ofJson, readings] at h
    split at h
    · cases h
    · obtain ⟨d, hd, hs⟩ := bind_eq_ok.1 h
      split at hs
      · cases hs
      · exact ⟨d, fillElements_eq_ok hd, hs⟩
  | _ => cases h

/-- **Every slot of a decoded node is what the value in it gives.** -/
theorem ofJson_gives {v : Json} {s : Schema} (h : ofJson v = .ok s) (slot : Slot) :
    slot.Gives (v.slots.lookup slot) (s.get slot) := by
  obtain ⟨d, filled, finished⟩ := exists_draft_of_ofJson h
  have hfilled := filled slot
  have hfinished := Draft.finish_eq_ok finished slot
  cases hl : v.slots.lookup slot with
  | some u =>
    rw [hl] at hfilled
    obtain ⟨x, hx, hd⟩ := hfilled
    rw [hd] at hfinished
    cases hfinished
    exact hx
  | none =>
    rw [hl] at hfilled
    rw [show d.get slot = none from hfilled.trans (Draft.get_empty slot)] at hfinished
    exact hfinished

/-- The slots of an object that decodes are filled once each. -/
theorem slots_nodup {members : List (String × Json)} {s : Schema}
    (h : ofJson (.object members) = .ok s) : ((Json.object members).slots.map Prod.fst).Nodup := by
  obtain ⟨d, hd, -⟩ := bind_eq_ok.1 h
  exact (fillMembers_eq_ok hd).2.2

/-- No two keys of an object that decodes fill the same slot. -/
theorem key_eq_of_ofKey? {members : List (String × Json)} {s : Schema}
    (h : ofJson (.object members) = .ok s) {m m' : String × Json} (hm : m ∈ members)
    (hm' : m' ∈ members) {slot : Slot} (hkey : Slot.ofKey? m.1 = some slot)
    (hkey' : Slot.ofKey? m'.1 = some slot) : m.1 = m'.1 :=
  Json.key_eq_of_slots_nodup (slots_nodup h) hm hm' hkey hkey'

/-! ### Lists and tables of nodes -/

theorem nodeElements_cons (i : Nat) (v : Json) (rest : List Json) :
    nodeElements i (v :: rest) =
      Decode.at_ (.index i) (ofJson v) >>= fun s => (nodeElements (i + 1) rest).map (s :: ·) := by
  rw [nodeElements, ofJson]
  cases Decode.at_ (.index i) ((readings v).node ()) <;> rfl

theorem nodeMembers_cons (name : String) (v : Json) (rest : List (String × Json)) :
    nodeMembers ((name, v) :: rest) =
      Decode.at_ (.key name) (ofJson v) >>= fun s => (nodeMembers rest).map ((name, s) :: ·) := by
  rw [nodeMembers, ofJson]
  cases Decode.at_ (.key name) ((readings v).node ()) <;> rfl

theorem nodeElements_eq_ok {i : Nat} {vs : List Json} {ss : List Schema} :
    nodeElements i vs = .ok ss ↔ List.Forall₂ (fun v s => ofJson v = .ok s) vs ss := by
  constructor
  · intro h
    induction vs generalizing i ss with
    | nil =>
      cases h
      exact .nil
    | cons v vs ih =>
      rw [nodeElements_cons] at h
      obtain ⟨s, hs, h⟩ := bind_eq_ok.1 h
      obtain ⟨rest, hrest, rfl⟩ := map_eq_ok.1 h
      exact .cons (mapError_eq_ok.1 hs) (ih hrest)
  · intro each
    induction each generalizing i with
    | nil => rfl
    | cons hs _ ih =>
      rw [nodeElements_cons, hs]
      exact map_eq_ok.2 ⟨_, ih, rfl⟩

theorem nodeMembers_eq_ok {ms : List (String × Json)} {ps : List (String × Schema)} :
    nodeMembers ms = .ok ps ↔ NamedForall₂ (fun v s => ofJson v = .ok s) ms ps := by
  constructor
  · intro h
    induction ms generalizing ps with
    | nil =>
      cases h
      exact .nil
    | cons m ms ih =>
      obtain ⟨name, v⟩ := m
      rw [nodeMembers_cons] at h
      obtain ⟨s, hs, h⟩ := bind_eq_ok.1 h
      obtain ⟨rest, hrest, rfl⟩ := map_eq_ok.1 h
      exact .cons ⟨rfl, mapError_eq_ok.1 hs⟩ (ih hrest)
  · intro each
    induction each with
    | nil => rfl
    | @cons m p ms ps hp _ ih =>
      obtain ⟨name, v⟩ := m
      obtain ⟨name', s⟩ := p
      obtain ⟨rfl, hs⟩ := hp
      rw [nodeMembers_cons, hs]
      exact map_eq_ok.2 ⟨_, ih, rfl⟩

/-- The first element that does not decode decides about an array of nodes. -/
theorem nodeElements_eq_of_first {before after : List Json} {c : Json} {e : DecodeError}
    (decoded : ∀ u ∈ before, ∃ s, ofJson u = .ok s) (failed : ofJson c = .error e) (i : Nat) :
    nodeElements i (before ++ c :: after) = .error (e.under (.index (i + before.length))) := by
  induction before generalizing i with
  | nil =>
    show nodeElements i (c :: after) = _
    rw [nodeElements_cons, failed]
    rfl
  | cons u before ih =>
    obtain ⟨⟨s, hs⟩, others⟩ := List.forall_mem_cons.1 decoded
    show nodeElements i (u :: (before ++ c :: after)) = _
    rw [nodeElements_cons, hs, List.length_cons, Nat.add_comm before.length, ← Nat.add_assoc]
    exact map_eq_error.2 (ih others (i + 1))

theorem exists_first_of_nodeElements {i : Nat} {vs : List Json} {e : DecodeError}
    (h : nodeElements i vs = .error e) :
    ∃ before c after e', vs = before ++ c :: after ∧ (∀ u ∈ before, ∃ s, ofJson u = .ok s) ∧
      ofJson c = .error e' ∧ e = e'.under (.index (i + before.length)) := by
  have notAll : ¬ ∀ u ∈ vs, ∃ s, ofJson u = .ok s := by
    intro decoded
    obtain ⟨ss, all⟩ := exists_forall₂ decoded
    cases h.symm.trans (nodeElements_eq_ok.2 all)
  obtain ⟨before, c, after, rfl, decoded, undecoded⟩ := exists_first_not notAll
  obtain ⟨e', failed⟩ := (ok_or_error (ofJson c)).resolve_left undecoded
  have same := h.symm.trans (nodeElements_eq_of_first decoded failed i)
  exact ⟨before, c, after, e', rfl, decoded, failed, Except.error.inj same⟩

/-- The error of a list of nodes is the error of one of them, seen from the list. -/
theorem nodeElements_eq_error {i : Nat} {vs : List Json} {e : DecodeError}
    (h : nodeElements i vs = .error e) :
    ∃ j v e', vs[j]? = some v ∧ ofJson v = .error e' ∧ e = e'.under (.index (i + j)) := by
  obtain ⟨before, c, after, e', rfl, -, failed, rfl⟩ := exists_first_of_nodeElements h
  exact ⟨before.length, c, e', by simp, failed, rfl⟩

/-- The first member that does not decode decides about a table of nodes. -/
theorem nodeMembers_eq_of_first {before after : List (String × Json)} {name : String} {c : Json}
    {e : DecodeError} (decoded : ∀ m ∈ before, ∃ s, ofJson m.2 = .ok s)
    (failed : ofJson c = .error e) :
    nodeMembers (before ++ (name, c) :: after) = .error (e.under (.key name)) := by
  induction before with
  | nil =>
    show nodeMembers ((name, c) :: after) = _
    rw [nodeMembers_cons, failed]
    rfl
  | cons m before ih =>
    obtain ⟨⟨s, hs⟩, others⟩ := List.forall_mem_cons.1 decoded
    show nodeMembers ((m.1, m.2) :: (before ++ (name, c) :: after)) = _
    rw [nodeMembers_cons, hs]
    exact map_eq_error.2 (ih others)

theorem exists_first_of_nodeMembers {ms : List (String × Json)} {e : DecodeError}
    (h : nodeMembers ms = .error e) :
    ∃ before name c after e', ms = before ++ (name, c) :: after ∧
      (∀ m ∈ before, ∃ s, ofJson m.2 = .ok s) ∧ ofJson c = .error e' ∧
      e = e'.under (.key name) := by
  have notAll : ¬ ∀ m ∈ ms, ∃ s, ofJson m.2 = .ok s := by
    intro decoded
    obtain ⟨ps, all⟩ := exists_namedForall₂ (R := fun v s => ofJson v = .ok s) decoded
    cases h.symm.trans (nodeMembers_eq_ok.2 all)
  obtain ⟨before, ⟨name, c⟩, after, rfl, decoded, undecoded⟩ := exists_first_not notAll
  obtain ⟨e', failed⟩ := (ok_or_error (ofJson c)).resolve_left undecoded
  have same := h.symm.trans (nodeMembers_eq_of_first decoded failed)
  exact ⟨before, name, c, after, e', rfl, decoded, failed, Except.error.inj same⟩

/-- The error of a table of nodes is the error of one of them, seen from the table. -/
theorem nodeMembers_eq_error {ms : List (String × Json)} {e : DecodeError}
    (h : nodeMembers ms = .error e) :
    ∃ name v e', (name, v) ∈ ms ∧ ofJson v = .error e' ∧ e = e'.under (.key name) := by
  obtain ⟨before, name, c, after, e', rfl, -, failed, rfl⟩ := exists_first_of_nodeMembers h
  exact ⟨name, c, e', List.mem_append_cons_self, failed, rfl⟩

/-! ### Child nodes -/

theorem unlessNull_eq_none {α : Type} {v : Json} {read : Unit → Except DecodeError α} :
    unlessNull v read = .ok none ↔ v = .null := by
  cases v <;> simp [unlessNull, map_eq_ok]

theorem unlessNull_eq_some {α : Type} {v : Json} {read : Unit → Except DecodeError α} {x : α} :
    unlessNull v read = .ok (some x) ↔ v ≠ .null ∧ read () = .ok x := by
  cases v <;> simp [unlessNull, map_eq_ok]

theorem unlessNull_eq_error {α : Type} {v : Json} {read : Unit → Except DecodeError α}
    {e : DecodeError} : unlessNull v read = .error e ↔ v ≠ .null ∧ read () = .error e := by
  cases v <;> simp [unlessNull, map_eq_error]

theorem nodes_eq_ok {v : Json} {ss : List Schema} :
    (readings v).nodes () = .ok ss ↔
      ∃ items, v = .array items ∧ List.Forall₂ (fun v s => ofJson v = .ok s) items ss := by
  cases v with
  | array items =>
    refine nodeElements_eq_ok.trans ⟨fun each => ⟨items, rfl, each⟩, ?_⟩
    rintro ⟨_, same, each⟩
    cases same
    exact each
  | _ => simp [readings]

theorem nodeTable_eq_ok {v : Json} {ps : List (String × Schema)} :
    (readings v).nodeTable () = .ok ps ↔
      ∃ members, v = .object members ∧
        NamedForall₂ (fun v s => ofJson v = .ok s) members ps := by
  cases v with
  | object members =>
    refine nodeMembers_eq_ok.trans ⟨fun each => ⟨members, rfl, each⟩, ?_⟩
    rintro ⟨_, same, each⟩
    cases same
    exact each
  | _ => simp [readings]

/-- A child in a list of nodes comes from the element at its index. -/
theorem exists_finds_of_getElem? {u : Json} {nodes : List Schema} {i : Nat} {c : Schema}
    (h : unlessNull u (readings u).nodes = .ok (some nodes)) (hc : nodes[i]? = some c) :
    ∃ w, (∃ items, u = .array items ∧ items[i]? = some w) ∧ ofJson w = .ok c := by
  obtain ⟨items, rfl, decoded⟩ := nodes_eq_ok.1 (unlessNull_eq_some.1 h).2
  obtain ⟨w, hw, hc⟩ := Forall₂.getElem?_right decoded hc
  exact ⟨w, ⟨items, rfl, hw⟩, hc⟩

/-- An element of a list of nodes decodes to the child at its index. -/
theorem exists_getElem?_of_finds {items : List Json} {nodes : Option (List Schema)} {i : Nat}
    {w : Json} (h : unlessNull (.array items) (readings (.array items)).nodes = .ok nodes)
    (hi : items[i]? = some w) :
    ∃ c, (∃ ss, nodes = some ss ∧ ss[i]? = some c) ∧ ofJson w = .ok c := by
  obtain ⟨ss, hss, rfl⟩ := map_eq_ok.1 h
  obtain ⟨c, hc, decoded⟩ := Forall₂.getElem?_left (nodeElements_eq_ok.1 hss) hi
  exact ⟨c, ⟨ss, rfl, hc⟩, decoded⟩

/-- **A child node is decoded from what its branch finds in the value of its slot.** -/
theorem exists_finds_of_child {v : Json} {s c : Schema} {b : Branch} (h : ofJson v = .ok s)
    (child : s.Child b c) :
    ∃ u w, v.slots.lookup b.slot = some u ∧ b.Finds u w ∧ ofJson w = .ok c := by
  have gives := ofJson_gives h b.slot
  cases hl : v.slots.lookup b.slot with
  | none =>
    -- an unfilled slot holds no child
    rw [hl] at gives
    cases b with
    | property name =>
      have none : ([] : List (String × Schema)) = s.properties := Option.some.inj gives
      rw [Child, ← none] at child
      cases child
    | items => cases (Option.some.inj gives).trans child
    | _ =>
      obtain ⟨nodes, hs, -⟩ := child
      cases (Option.some.inj gives).trans hs
  | some u =>
    rw [hl] at gives
    cases b with
    | items =>
      change unlessNull u (readings u).node = .ok s.items at gives
      rw [show s.items = some c from child] at gives
      exact ⟨u, u, rfl, rfl, (unlessNull_eq_some.1 gives).2⟩
    | prefixItem i =>
      obtain ⟨nodes, hs, hc⟩ := child
      change unlessNull u (readings u).nodes = .ok s.prefixItems at gives
      rw [hs] at gives
      obtain ⟨w, finds, hw⟩ := exists_finds_of_getElem? gives hc
      exact ⟨u, w, rfl, finds, hw⟩
    | alternative i =>
      obtain ⟨nodes, hs, hc⟩ := child
      change unlessNull u (readings u).nodes = .ok s.oneOf at gives
      rw [hs] at gives
      obtain ⟨w, finds, hw⟩ := exists_finds_of_getElem? gives hc
      exact ⟨u, w, rfl, finds, hw⟩
    | property name =>
      change (readings u).nodeTable () = .ok s.properties at gives
      obtain ⟨members, rfl, decoded⟩ := nodeTable_eq_ok.1 gives
      obtain ⟨w, mem, hw⟩ := decoded.mem_right child
      exact ⟨.object members, w, rfl, ⟨members, rfl, mem⟩, hw⟩

/-- What a branch finds in the value of its slot decodes to a child node; only null stands for no
node. -/
theorem exists_child_of_finds {v u w : Json} {s : Schema} {b : Branch} (h : ofJson v = .ok s)
    (hu : v.slots.lookup b.slot = some u) (finds : b.Finds u w) (hw : w ≠ .null) :
    ∃ c, s.Child b c ∧ ofJson w = .ok c := by
  have gives := ofJson_gives h b.slot
  rw [hu] at gives
  cases b with
  | items =>
    cases finds
    change unlessNull u (readings u).node = .ok s.items at gives
    cases hs : s.items with
    | none => cases u <;> simp_all [unlessNull, map_eq_ok]
    | some c =>
      rw [hs] at gives
      exact ⟨c, hs, (unlessNull_eq_some.1 gives).2⟩
  | prefixItem i =>
    obtain ⟨items, rfl, hi⟩ := finds
    exact exists_getElem?_of_finds gives hi
  | alternative i =>
    obtain ⟨items, rfl, hi⟩ := finds
    exact exists_getElem?_of_finds gives hi
  | property name =>
    obtain ⟨members, rfl, mem⟩ := finds
    obtain ⟨c, hc, decoded⟩ := (nodeMembers_eq_ok.1 gives).mem_left mem
    exact ⟨c, hc, decoded⟩

/-- **Every child node is decoded from a value inside**, whichever way its parent is written. -/
theorem exists_inside_of_child {v : Json} {s c : Schema} {b : Branch} (h : ofJson v = .ok s)
    (child : s.Child b c) : ∃ k w, v.Inside (k + 1) w ∧ ofJson w = .ok c := by
  obtain ⟨u, w, hu, finds, hw⟩ := exists_finds_of_child h child
  have part : v.Part u := Json.part_of_mem_slots (mem_of_lookup hu)
  obtain ⟨k, inside⟩ := finds.inside
  exact ⟨k, w, .deeper part inside, hw⟩

/-- A child of a node written as an object is decoded from the child of the object. -/
theorem exists_jsonChild_of_child {members : List (String × Json)} {s c : Schema} {b : Branch}
    (h : ofJson (.object members) = .ok s) (child : s.Child b c) :
    ∃ w, (Json.object members).Child b w ∧ ofJson w = .ok c := by
  obtain ⟨u, w, hu, finds, hw⟩ := exists_finds_of_child h child
  obtain ⟨key, mem, hkey⟩ := Json.mem_slots_object.1 (mem_of_lookup hu)
  cases Branch.ofKey?_eq_slot.1 hkey
  exact ⟨w, Json.child_iff_finds.2 ⟨u, mem, finds⟩, hw⟩

/-- A child of an object that decodes to a node is decoded to a child of the node. -/
theorem exists_child_of_jsonChild {v w : Json} {s : Schema} {b : Branch} (h : ofJson v = .ok s)
    (child : v.Child b w) (hw : w ≠ .null) : ∃ c, s.Child b c ∧ ofJson w = .ok c := by
  cases v with
  | object members =>
    obtain ⟨u, mem, finds⟩ := Json.child_iff_finds.1 child
    have filled : (b.slot, u) ∈ (Json.object members).slots :=
      Json.mem_slots_object.2 ⟨_, mem, Branch.ofKey?_eq_slot.2 rfl⟩
    exact exists_child_of_finds h (lookup_of_mem (slots_nodup h) filled) finds hw
  | _ => exact child.elim

end Schema

end SchemaModel
