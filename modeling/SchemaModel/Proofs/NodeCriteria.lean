import SchemaModel.Proofs.Decoding

/-!
# When a value is a node

A value reads as a node exactly if it fills no slot twice and what it puts into each slot reads
there.  Neither depends on the order of the keys, nor on keys that are not known.

* `Json.FillsOnce` — a written node fills every slot at most once; `Json.fillsOnce_object` — when
  an object does so;
* `Schema.ofJson_eq_ok` — when a value reads as a node, and as which.
-/

namespace SchemaModel

open Outcome

/-! ### Slots that are filled once -/

/-- A written node fills every slot at most once: an object does not use two keys of one slot, and
an array has one element for each slot from the first on. -/
def Json.FillsOnce : Json → Prop
  | .object members => ((Json.object members).slots.map Prod.fst).Nodup
  | .array items => items ≠ [] ∧ items.length ≤ Slot.all.length
  | _ => False

theorem Json.FillsOnce.nodup {v : Json} (h : v.FillsOnce) : (v.slots.map Prod.fst).Nodup := by
  cases v with
  | object members => exact h
  | array items => exact Slot.all_nodup.sublist (map_fst_zip_sublist _ items)
  | _ => exact h.elim

/-- No two keys of an object fill a slot. -/
def Slot.HasOneKey (slot : Slot) (members : List (String × Json)) : Prop :=
  ∀ m ∈ members, ∀ m' ∈ members, ofKey? m.1 = some slot → ofKey? m'.1 = some slot → m.1 = m'.1

/-- An object that repeats no key fills every slot at most once if no two keys fill one slot. -/
theorem Json.fillsOnce_object {members : List (String × Json)}
    (distinct : (members.map Prod.fst).Nodup) :
    (object members).FillsOnce ↔ ∀ slot : Slot, slot.HasOneKey members := by
  constructor
  · intro once slot m mem m' mem' hkey hkey'
    exact key_eq_of_slots_nodup once mem mem' hkey hkey'
  · intro unique
    have apart : members.Pairwise fun m m' => m.1 ≠ m'.1 := List.pairwise_map.1 distinct
    rw [FillsOnce, slots, List.Nodup, List.pairwise_map, List.pairwise_filterMap]
    refine apart.imp_of_mem fun mem mem' different x hx y hy same => ?_
    obtain ⟨slot, hslot, rfl⟩ := Option.map_eq_some_iff.1 hx
    obtain ⟨slot', hslot', rfl⟩ := Option.map_eq_some_iff.1 hy
    obtain rfl : slot = slot' := same
    exact different (unique slot _ mem _ mem' hslot hslot')

theorem Slot.Gives.unique {slot : Slot} {v : Option Json} {x y : slot.Content}
    (hx : slot.Gives v x) (hy : slot.Gives v y) : x = y := by
  cases v with
  | none => exact Option.some.inj (hx.symm.trans hy)
  | some v => exact Except.ok.inj (hx.symm.trans hy)

/-! ### Values that read as nodes -/

namespace Schema

theorem ext_get {s s' : Schema} (h : ∀ slot, s.get slot = s'.get slot) : s = s' := by
  cases s
  cases s'
  rw [mk.injEq]
  exact ⟨h .type, h .targetType, h .title, h .description, h .properties, h .items, h .prefixItems,
    h .oneOf, h .enum, h .default, h .declaredFields⟩

/-- The node with the given contents. -/
def ofSlots (content : (slot : Slot) → slot.Content) : Schema :=
  ⟨content .type, content .targetType, content .title, content .description, content .properties,
    content .items, content .prefixItems, content .oneOf, content .enum, content .default,
    content .declaredFields⟩

theorem get_ofSlots (content : (slot : Slot) → slot.Content) (slot : Slot) :
    (ofSlots content).get slot = content slot := by
  cases slot <;> rfl

/-- A value that reads in a slot fills it in a draft. -/
theorem exists_fill {d : Draft} {slot : Slot} {v : Json} {x : slot.Content}
    (h : slot.read v = .ok x) : ∃ d', d.fill slot v (readings v) = .ok d' := by
  rcases ok_or_error (d.fill slot v (readings v)) with filled | ⟨e, failed⟩
  · exact filled
  · cases h.symm.trans (Draft.fill_eq_error.1 failed)

theorem exists_fillMembers {d : Draft} {ms : List (String × Json)}
    (nodup : ((Json.object ms).slots.map Prod.fst).Nodup)
    (free : ∀ slot ∈ (Json.object ms).slots.map Prod.fst, d.get slot = none)
    (reads : ∀ slot u, (slot, u) ∈ (Json.object ms).slots → ∃ x, slot.read u = .ok x) :
    ∃ d', fillMembers d ms = .ok d' := by
  induction ms generalizing d with
  | nil => exact ⟨d, rfl⟩
  | cons m ms ih =>
    obtain ⟨key, v⟩ := m
    rw [fillMembers_cons]
    cases hkey : Slot.ofKey? key with
    | none =>
      have same : (Json.object ((key, v) :: ms)).slots = (Json.object ms).slots := by
        simp [Json.slots, hkey]
      rw [same] at nodup free reads
      exact ih nodup free reads
    | some slot =>
      have grown : (Json.object ((key, v) :: ms)).slots = (slot, v) :: (Json.object ms).slots := by
        simp [Json.slots, hkey]
      rw [grown] at nodup free reads
      obtain ⟨fresh, nodup⟩ := List.nodup_cons.1 nodup
      obtain ⟨x, hx⟩ := reads slot v List.mem_cons_self
      obtain ⟨d₁, hd⟩ := exists_fill (d := d) hx
      have others := (Draft.fill_eq_ok hd).2
      have unfilled : d.get slot = none := free slot (by simp)
      obtain ⟨d', hd'⟩ := ih (d := d₁) nodup
        (fun other mem => by
          have ne : other ≠ slot := fun same => fresh (same ▸ mem)
          rw [others other ne]
          exact free other (List.mem_cons_of_mem _ mem))
        fun other u mem => reads other u (List.mem_cons_of_mem _ mem)
      refine ⟨d', ?_⟩
      simp only [unfilled, Option.isSome_none, Bool.false_eq_true, if_false]
      exact bind_eq_ok.2 ⟨d₁, mapError_eq_ok.2 hd, hd'⟩

theorem exists_fillElements {d : Draft} {i : Nat} {vs : List Json}
    (reads : ∀ slot u, (slot, u) ∈ (Slot.all.drop i).zip vs → ∃ x, slot.read u = .ok x) :
    ∃ d', fillElements d i vs = .ok d' := by
  induction vs generalizing d i with
  | nil => exact ⟨d, rfl⟩
  | cons v vs ih =>
    rw [fillElements_cons]
    cases hslot : Slot.all[i]? with
    | none => exact ⟨d, rfl⟩
    | some slot =>
      obtain ⟨hi, rfl⟩ := List.getElem?_eq_some_iff.1 hslot
      rw [List.drop_eq_getElem_cons hi, List.zip_cons_cons] at reads
      obtain ⟨x, hx⟩ := reads _ v List.mem_cons_self
      obtain ⟨d₁, hd⟩ := exists_fill (d := d) hx
      obtain ⟨d', hd'⟩ := ih (d := d₁) fun other u mem => reads other u (List.mem_cons_of_mem _ mem)
      exact ⟨d', bind_eq_ok.2 ⟨d₁, mapError_eq_ok.2 hd, hd'⟩⟩

theorem exists_finish {v : Json} {d : Draft} (filled : Draft.FilledBy {} v.slots d)
    {x : Slot.Content .type} (gives : Slot.Gives .type (v.slots.lookup .type) x) :
    ∃ s, d.finish = .ok s := by
  have own := filled .type
  cases hl : v.slots.lookup Slot.type with
  | none =>
    rw [hl] at gives
    cases gives
  | some u =>
    rw [hl] at own
    obtain ⟨t, -, ht⟩ := own
    have htype : d.type = some t := ht
    rw [Draft.finish, htype]
    exact ⟨_, rfl⟩

theorem fillsOnce_of_decoded {v : Json} {s : Schema} (h : ofJson v = .ok s) : v.FillsOnce := by
  cases v with
  | object members => exact slots_nodup h
  | array items =>
    simp only [ofJson, readings] at h
    split at h
    · cases h
    · rename_i nonempty
      obtain ⟨d, -, h⟩ := bind_eq_ok.1 h
      split at h
      · cases h
      · rename_i short
        exact ⟨fun none => nonempty (by rw [none]; rfl), Nat.not_lt.1 short⟩
  | _ => cases h

/-- **A value reads as a node exactly if it fills no slot twice and each slot of the node is what
the value in it gives.** -/
theorem ofJson_eq_ok {v : Json} {s : Schema} :
    ofJson v = .ok s ↔
      v.FillsOnce ∧ ∀ slot : Slot, slot.Gives (v.slots.lookup slot) (s.get slot) := by
  constructor
  · exact fun h => ⟨fillsOnce_of_decoded h, ofJson_gives h⟩
  · rintro ⟨once, gives⟩
    have reads : ∀ slot u, (slot, u) ∈ v.slots → ∃ x, slot.read u = .ok x := by
      intro slot u mem
      have own := gives slot
      rw [lookup_of_mem once.nodup mem] at own
      exact ⟨_, own⟩
    obtain ⟨s', h⟩ : ∃ s', ofJson v = .ok s' := by
      cases v with
      | object members =>
        obtain ⟨d, hd⟩ := exists_fillMembers (d := {}) once
          (fun slot _ => Draft.get_empty slot) reads
        obtain ⟨s', hs⟩ := exists_finish (fillMembers_eq_ok hd).1 (gives .type)
        exact ⟨s', bind_eq_ok.2 ⟨d, hd, hs⟩⟩
      | array items =>
        obtain ⟨d, hd⟩ := exists_fillElements (d := {}) (i := 0) reads
        have filled : Draft.FilledBy {} (Json.array items).slots d := fillElements_eq_ok hd
        obtain ⟨s', hs⟩ := exists_finish filled (gives .type)
        refine ⟨s', ?_⟩
        have nonempty : ¬ items.isEmpty = true := by simpa using once.1
        rw [ofJson, readings]
        simp only [if_neg nonempty]
        refine bind_eq_ok.2 ⟨d, hd, ?_⟩
        rw [if_neg (Nat.not_lt.2 once.2)]
        exact hs
      | _ => exact once.elim
    rw [h, ext_get fun slot => Slot.Gives.unique (ofJson_gives h slot) (gives slot)]

end Schema

end SchemaModel
