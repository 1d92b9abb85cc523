import SchemaModel.Proofs.Grammar
import SchemaModel.Proofs.NodeCriteria
import SchemaModel.Proofs.Pruning

/-!
# Spellings of a document

The same nodes can be spelled in many ways: the keys of a node may stand in any order and among
unknown ones, two slots have a second key, and titles and descriptions are for readers only.  The
nesting check apart, no step of a compilation tells two spellings of a document from each other.
The grammar looks values up by their keys, the reading by their slots, and what is compiled does not
depend on titles and descriptions.

* `Slot.SpelledAs`, `Json.SpelledAs` — two spellings of one node, the nodes below it left aside;
* `Json.Respelled` — two spellings of one document;
* `Json.Respelled.accepts` — one is accepted where the other is;
* `Json.Respelled.exists_ofJson` — one is read where the other is, as nodes that compile alike;
* `spelling_is_immaterial` — both compile to the same, or fail alike.
-/

namespace SchemaModel

/-! ### Documents that differ in their spelling -/

/-- The value of a slot with the nodes in it blotted out. -/
def Slot.frame : Slot → Json → Json
  | .items, _ => .null
  | .prefixItems, .array nodes | .oneOf, .array nodes => .array (nodes.map fun _ => .null)
  | .properties, .object nodes => .object (nodes.map fun m => (m.1, .null))
  | _, v => v

/-- Whether a slot holds a text for readers. -/
def Slot.IsNote (slot : Slot) : Prop := slot = .title ∨ slot = .description

/-- A value fills a slot of an object under a key, and no other key does. -/
structure Slot.FilledOnce (slot : Slot) (members : List (String × Json)) (key : String)
    (v : Json) : Prop where
  fills : Slot.ofKey? key = some slot
  mem : (key, v) ∈ members
  only : ∀ other ∈ members.map Prod.fst, Slot.ofKey? other = some slot → other = key

/-- Two objects spell the value of a slot, the nodes in it left aside: under the same keys, under
one key in either object, or as a note that is a string wherever there is one. -/
inductive Slot.SpelledAs (slot : Slot) (members members' : List (String × Json)) : Prop
  | sameKeys (same : ∀ key, Slot.ofKey? key = some slot →
      (members.lookup key).map slot.frame = (members'.lookup key).map slot.frame)
  | oneKey {key key' : String} {v : Json} (one : slot.FilledOnce members key v)
      (one' : slot.FilledOnce members' key' v)
  | note (note : slot.IsNote) (text : ∀ v, (slot.key, v) ∈ members → ∃ s, v = .string s)
      (text' : ∀ v, (slot.key, v) ∈ members' → ∃ s, v = .string s)

/-- Two values spell one node, the nodes below it left aside.  What an object has under unknown
keys, and in which order, does not matter; an array leaves no choice. -/
inductive Json.SpelledAs : Json → Json → Prop
  | object {members members' : List (String × Json)}
      (each : ∀ slot : Slot, slot.SpelledAs members members') :
      SpelledAs (.object members) (.object members')
  | array {items items' : List Json} (length : items.length = items'.length)
      (each : ∀ slot : Slot, ((Json.array items).slots.lookup slot).map slot.frame =
        ((Json.array items').slots.lookup slot).map slot.frame) :
      SpelledAs (.array items) (.array items')

/-- A branch leads from a node, written as an object or as an array, to a value in a slot of it. -/
def Json.Holds (v : Json) (b : Branch) (w : Json) : Prop :=
  ∃ u, (b.slot, u) ∈ v.slots ∧ b.Finds u w

/-- Two spellings of one document: they differ at nodes only, and there in their spelling. -/
inductive Json.Respelled : Json → Json → Prop
  | same (v : Json) : Respelled v v
  | node {v v' : Json} (spelled : v.SpelledAs v')
      (below : ∀ b w w', v.Holds b w → v'.Holds b w' → Respelled w w') : Respelled v v'

theorem Slot.SpelledAs.symm {slot : Slot} {members members' : List (String × Json)}
    (h : slot.SpelledAs members members') : slot.SpelledAs members' members := by
  cases h with
  | sameKeys same => exact .sameKeys fun key hkey => (same key hkey).symm
  | oneKey one one' => exact .oneKey one' one
  | note note text text' => exact .note note text' text

theorem Json.SpelledAs.symm {v v' : Json} (h : v.SpelledAs v') : v'.SpelledAs v := by
  cases h with
  | object each => exact .object fun slot => (each slot).symm
  | array length each => exact .array length.symm fun slot => (each slot).symm

theorem Json.SpelledAs.exists_object {members : List (String × Json)} {v' : Json}
    (h : (Json.object members).SpelledAs v') :
    ∃ members', v' = .object members' ∧ ∀ slot : Slot, slot.SpelledAs members members' := by
  cases h with
  | object each => exact ⟨_, rfl, each⟩

theorem Json.Respelled.symm {v v' : Json} (h : v.Respelled v') : v'.Respelled v := by
  induction h with
  | same v => exact .same v
  | node spelled _ ih => exact .node spelled.symm fun b w w' hw hw' => ih b w' w hw' hw

/-- Null has one spelling. -/
theorem Json.Respelled.null_iff {v v' : Json} (h : v.Respelled v') : v = .null ↔ v' = .null := by
  cases h with
  | same => exact Iff.rfl
  | node spelled =>
    cases spelled <;> constructor <;> intro same <;> cases same

theorem Json.Holds.inside {v w : Json} {b : Branch} (h : v.Holds b w) :
    ∃ k, v.Inside (k + 1) w := by
  obtain ⟨u, mem, finds⟩ := h
  obtain ⟨k, inside⟩ := finds.inside
  exact ⟨k, .deeper (part_of_mem_slots mem) inside⟩

/-! ### Nodes in values that have the same frame -/

namespace Slot

/-- The nodes that one branch finds in two values of a slot are related. -/
def NodesRelated (slot : Slot) (R : Json → Json → Prop) (u u' : Json) : Prop :=
  ∀ (b : Branch) w w', b.slot = slot → b.Finds u w → b.Finds u' w' → R w w'

variable {R : Json → Json → Prop}

theorem exists_list_of_frame {slot : Slot} (list : slot = .prefixItems ∨ slot = .oneOf)
    {us : List Json} {u' : Json} (same : slot.frame (.array us) = slot.frame u')
    (below : slot.NodesRelated R (.array us) u') :
    ∃ us', u' = .array us' ∧ List.Forall₂ R us us' := by
  cases u' with
  | array us' =>
    have frames : (Json.array (us.map fun _ => .null)) = .array (us'.map fun _ => .null) := by
      rcases list with rfl | rfl <;> exact same
    have length : us.length = us'.length := by
      simpa using congrArg List.length (Json.array.inj frames)
    refine ⟨us', rfl, List.forall₂_iff_get.2 ⟨length, fun i lt lt' => ?_⟩⟩
    have hi : us[i]? = some us[i] := List.getElem?_eq_getElem lt
    have hi' : us'[i]? = some us'[i] := List.getElem?_eq_getElem lt'
    rcases list with rfl | rfl
    · exact below (.prefixItem i) _ _ rfl ⟨us, rfl, hi⟩ ⟨us', rfl, hi'⟩
    · exact below (.alternative i) _ _ rfl ⟨us, rfl, hi⟩ ⟨us', rfl, hi'⟩
  | _ => rcases list with rfl | rfl <;> cases same

theorem exists_table_of_frame {ms : List (String × Json)} {u' : Json}
    (same : Slot.properties.frame (.object ms) = Slot.properties.frame u')
    (below : Slot.properties.NodesRelated R (.object ms) u') :
    ∃ ms', u' = .object ms' ∧ NamedForall₂ R ms ms' := by
  cases u' with
  | object ms' =>
    have frames := Json.object.inj same
    have length : ms.length = ms'.length := by simpa using congrArg List.length frames
    refine ⟨ms', rfl, List.forall₂_iff_get.2 ⟨length, fun i lt lt' => ?_⟩⟩
    have name : ms[i].1 = ms'[i].1 := by
      simpa [lt, lt'] using congrArg (fun ms => (ms[i]?).map Prod.fst) frames
    refine ⟨name, below (.property ms[i].1) _ _ rfl ⟨ms, rfl, List.getElem_mem lt⟩ ⟨ms', rfl, ?_⟩⟩
    rw [name]
    exact List.getElem_mem lt'
  | _ => cases same

end Slot

/-! ### Spellings keep to the grammar -/

namespace Slot

theorem IsNote.key_eq {slot : Slot} (note : slot.IsNote) {key : String}
    (hkey : ofKey? key = some slot) : key = slot.key := by
  rcases note with rfl | rfl <;> simpa using ofKey?_eq_some.1 hkey

/-- Under the key of a slot that has one key and is no note, two spellings have the same. -/
theorem SpelledAs.lookup_key {slot : Slot} {members members' : List (String × Json)}
    (h : slot.SpelledAs members members') (distinct : (members.map Prod.fst).Nodup)
    (distinct' : (members'.map Prod.fst).Nodup)
    (plain : slot ∉ [.targetType, .declaredFields, .title, .description]) :
    (members.lookup slot.key).map slot.frame = (members'.lookup slot.key).map slot.frame := by
  simp only [List.mem_cons, List.not_mem_nil, or_false, not_or] at plain
  obtain ⟨noTarget, noFields, noTitle, noDescription⟩ := plain
  have single : ∀ key, ofKey? key = some slot → key = slot.key := by
    intro key hkey
    simpa [noTarget, noFields] using ofKey?_eq_some.1 hkey
  cases h with
  | sameKeys same => exact same slot.key slot.ofKey?_key
  | oneKey one one' =>
    obtain rfl := single _ one.fills
    obtain rfl := single _ one'.fills
    rw [lookup_of_mem distinct one.mem, lookup_of_mem distinct' one'.mem]
  | note note =>
    rcases note with title | description
    · exact absurd title noTitle
    · exact absurd description noDescription

end Slot

namespace MetaSchema

/-- A value with the frame of an accepted one is accepted if the nodes in it are. -/
theorem memberViolations_of_frame {slot : Slot} {u u' : Json} (same : slot.frame u = slot.frame u')
    (below : slot.NodesRelated (fun w w' => Accepts w → Accepts w') u u')
    (fine : memberViolations slot.key u = []) : memberViolations slot.key u' = [] := by
  cases slot with
  | items => exact below .items u u' rfl rfl rfl fine
  | prefixItems | oneOf =>
    obtain ⟨us, rfl, nonempty, accepted⟩ := (memberViolations_list (by decide)).1 fine
    obtain ⟨us', rfl, related⟩ := Slot.exists_list_of_frame (by decide) same below
    refine (memberViolations_list (by decide)).2 ⟨us', rfl, ?_, fun w' mem' => ?_⟩
    · rintro rfl
      cases related
      exact nonempty rfl
    · obtain ⟨i, hi'⟩ := List.mem_iff_getElem?.1 mem'
      obtain ⟨w, hi, accepts⟩ := Forall₂.getElem?_right related hi'
      exact accepts (accepted w (List.mem_of_getElem? hi))
  | properties =>
    obtain ⟨ms, rfl, accepted⟩ := memberViolations_table.1 fine
    obtain ⟨ms', rfl, related⟩ := Slot.exists_table_of_frame same below
    refine memberViolations_table.2 ⟨ms', rfl, fun m' mem' => ?_⟩
    obtain ⟨w, mem, accepts⟩ := related.mem_right mem'
    exact accepts (accepted _ mem)
  | _ =>
    obtain rfl : u = u' := same
    exact fine

theorem memberViolations_note {slot : Slot} (note : slot.IsNote) (s : String) :
    memberViolations slot.key (.string s) = [] := by
  rcases note with rfl | rfl <;> rfl

end MetaSchema

namespace Json.Respelled

open MetaSchema

/-- A slot of a node is accepted in one spelling where it is in the other. -/
theorem memberViolations_eq_nil {members members' : List (String × Json)} {slot : Slot}
    (h : slot.SpelledAs members members') (distinct : (members.map Prod.fst).Nodup)
    (distinct' : (members'.map Prod.fst).Nodup) (accepted : Accepts (.object members))
    (below : ∀ b w w', (object members).Holds b w → (object members').Holds b w' →
      Accepts w → Accepts w')
    {key : String} {v' : Json} (hkey : Slot.ofKey? key = some slot) (mem' : (key, v') ∈ members') :
    memberViolations key v' = [] := by
  have fine : ∀ {key v}, Slot.ofKey? key = some slot → (key, v) ∈ members →
      memberViolations slot.key v = [] := by
    intro key v hkey mem
    rw [← memberViolations_of_ofKey? hkey]
    exact accepted.member_of_ofKey? distinct hkey mem
  rw [memberViolations_of_ofKey? hkey]
  cases h with
  | sameKeys same =>
    have held := same key hkey
    rw [lookup_of_mem distinct' mem'] at held
    obtain ⟨v, hv, framed⟩ := Option.map_eq_some_iff.1 held
    have mem := mem_of_lookup hv
    refine memberViolations_of_frame framed ?_ (fine hkey mem)
    rintro b w w' rfl finds finds'
    exact below b w w' ⟨v, mem_slots_object.2 ⟨key, mem, hkey⟩, finds⟩
      ⟨v', mem_slots_object.2 ⟨key, mem', hkey⟩, finds'⟩
  | oneKey one one' =>
    obtain rfl := one'.only key (List.mem_map_of_mem mem') hkey
    have same := (lookup_of_mem distinct' mem').symm.trans (lookup_of_mem distinct' one'.mem)
    cases same
    exact fine one.fills one.mem
  | note note _ text' =>
    obtain rfl := note.key_eq hkey
    obtain ⟨s, rfl⟩ := text' v' mem'
    exact memberViolations_note note s

/-- The rules that tie two slots of a node together name slots with one key only. -/
theorem fits {members members' : List (String × Json)}
    (h : ∀ slot : Slot, slot.SpelledAs members members') (distinct : (members.map Prod.fst).Nodup)
    (distinct' : (members'.map Prod.fst).Nodup) (fits : Fits fun key => members.lookup key)
    (member : ∀ key ∈ keys, ∀ v', members'.lookup key = some v' → memberViolations key v' = []) :
    Fits fun key => members'.lookup key := by
  have type : members.lookup "type" = members'.lookup "type" := by
    have same : (members.lookup "type").map id = (members'.lookup "type").map id :=
      (h .type).lookup_key distinct distinct' (by decide)
    simpa only [Option.map_id, id] using same
  have present : ∀ slot, slot ∉ [Slot.targetType, .declaredFields, .title, .description] →
      (members.lookup slot.key).isSome = (members'.lookup slot.key).isSome := by
    intro slot plain
    have same := congrArg Option.isSome ((h slot).lookup_key distinct distinct' plain)
    rwa [Option.isSome_map, Option.isSome_map] at same
  have items := present .items (by decide)
  have prefixItems := present .prefixItems (by decide)
  have oneOf := present .oneOf (by decide)
  refine ⟨type ▸ fits.type, member, fun array => ?_, fun alternatives => ?_⟩
  · exact (fits.array (type ▸ array)).imp (items ▸ ·) (prefixItems ▸ ·)
  · exact type ▸ fits.oneOf (oneOf ▸ alternatives)

/-- **A spelling of an accepted document is accepted.** -/
theorem accepts {v v' : Json} (h : v.Respelled v') (distinct : v.HasDistinctKeys)
    (distinct' : v'.HasDistinctKeys) (accepted : Accepts v) : Accepts v' := by
  -- by induction on the document, since the nodes below a node lie inside it
  induction v using Json.induction generalizing v' with
  | step v ih =>
    cases h with
    | same => exact accepted
    | node spelled below =>
      obtain ⟨members, rfl⟩ := accepted.exists_object
      obtain ⟨members', rfl, each⟩ := spelled.exists_object
      have nodes : ∀ b w w', (object members).Holds b w → (object members').Holds b w' →
          Accepts w → Accepts w' := by
        intro b w w' hw hw'
        obtain ⟨k, inside⟩ := hw.inside
        obtain ⟨k', inside'⟩ := hw'.inside
        exact ih k w inside (below b w w' hw hw') (distinct.inside inside)
          (distinct'.inside inside')
      refine accepts_object.2 (fits each distinct.1 distinct'.1 (accepts_object.1 accepted) ?_)
      intro key known v' hv'
      have slots : ∀ key ∈ keys, (Slot.ofKey? key).isSome := by decide
      obtain ⟨slot, hkey⟩ := Option.isSome_iff_exists.1 (slots key known)
      exact memberViolations_eq_nil (each slot) distinct.1 distinct'.1 accepted nodes hkey
        (mem_of_lookup hv')

end Json.Respelled

/-! ### Spellings fill slots alike -/

/-- What two spellings of a node put into a slot: the same but for the nodes in it, or a note that
is a string wherever there is one. -/
def Slot.FilledAlike (slot : Slot) (x x' : Option Json) : Prop :=
  x.map slot.frame = x'.map slot.frame ∨
    slot.IsNote ∧ (∀ v, x = some v → ∃ s, v = .string s) ∧ ∀ v, x' = some v → ∃ s, v = .string s

theorem Slot.SpelledAs.hasOneKey {slot : Slot} {members members' : List (String × Json)}
    (h : slot.SpelledAs members members') (distinct' : (members'.map Prod.fst).Nodup)
    (unique : slot.HasOneKey members) : slot.HasOneKey members' := by
  intro m mem m' mem' hkey hkey'
  cases h with
  | sameKeys same =>
    have held : ∀ m ∈ members', ofKey? m.1 = some slot → ∃ v, (m.1, v) ∈ members := by
      intro m mem hkey
      have found := same m.1 hkey
      rw [lookup_of_mem distinct' mem] at found
      obtain ⟨v, hv, -⟩ := Option.map_eq_some_iff.1 found
      exact ⟨v, mem_of_lookup hv⟩
    obtain ⟨v, hv⟩ := held m mem hkey
    obtain ⟨v', hv'⟩ := held m' mem' hkey'
    exact unique (m.1, v) hv (m'.1, v') hv' hkey hkey'
  | oneKey _ one' =>
    rw [one'.only m.1 (List.mem_map_of_mem mem) hkey,
      one'.only m'.1 (List.mem_map_of_mem mem') hkey']
  | note note => rw [note.key_eq hkey, note.key_eq hkey']

namespace Json

theorem SpelledAs.fillsOnce {v v' : Json} (h : v.SpelledAs v') (distinct : v.HasDistinctKeys)
    (distinct' : v'.HasDistinctKeys) (once : v.FillsOnce) : v'.FillsOnce := by
  cases h with
  | object each =>
    refine (fillsOnce_object distinct'.1).2 fun slot => (each slot).hasOneKey distinct'.1 ?_
    exact (fillsOnce_object distinct.1).1 once slot
  | array length each =>
    obtain ⟨nonempty, short⟩ := once
    refine ⟨?_, length ▸ short⟩
    rintro rfl
    exact nonempty (List.length_eq_zero_iff.1 length)

theorem exists_lookup_of_sameKeys {slot : Slot} {members members' : List (String × Json)}
    (same : ∀ key, Slot.ofKey? key = some slot →
      (members.lookup key).map slot.frame = (members'.lookup key).map slot.frame)
    (distinct : (members.map Prod.fst).Nodup) (once' : (object members').FillsOnce) {u : Json}
    (hu : (object members).slots.lookup slot = some u) :
    ∃ u', (object members').slots.lookup slot = some u' ∧ slot.frame u = slot.frame u' := by
  obtain ⟨key, mem, hkey⟩ := mem_slots_object.1 (mem_of_lookup hu)
  have found := same key hkey
  rw [lookup_of_mem distinct mem] at found
  obtain ⟨u', hu', framed⟩ := Option.map_eq_some_iff.1 found.symm
  have filled := mem_slots_object.2 ⟨key, mem_of_lookup hu', hkey⟩
  exact ⟨u', lookup_of_mem once'.nodup filled, framed.symm⟩

/-- **Two spellings of a node put the same into its slots.** -/
theorem SpelledAs.filledAlike {v v' : Json} (h : v.SpelledAs v') (distinct : v.HasDistinctKeys)
    (distinct' : v'.HasDistinctKeys) (once : v.FillsOnce) (once' : v'.FillsOnce) (slot : Slot) :
    slot.FilledAlike (v.slots.lookup slot) (v'.slots.lookup slot) := by
  cases h with
  | array length each => exact .inl (each slot)
  | @object members members' each =>
    cases each slot with
    | sameKeys same =>
      left
      cases hu : (Json.object members).slots.lookup slot with
      | some u =>
        obtain ⟨u', hu', framed⟩ := exists_lookup_of_sameKeys same distinct.1 once' hu
        rw [hu']
        exact congrArg some framed
      | none =>
        cases hu' : (Json.object members').slots.lookup slot with
        | none => rfl
        | some u' =>
          obtain ⟨u, filled, -⟩ := exists_lookup_of_sameKeys
            (fun key hkey => (same key hkey).symm) distinct'.1 once hu'
          cases hu.symm.trans filled
    | oneKey one one' =>
      left
      rw [lookup_of_mem once.nodup (mem_slots_object.2 ⟨_, one.mem, one.fills⟩),
        lookup_of_mem once'.nodup (mem_slots_object.2 ⟨_, one'.mem, one'.fills⟩)]
    | note note text text' =>
      have strings : ∀ members : List (String × Json),
          (∀ v, (slot.key, v) ∈ members → ∃ s, v = Json.string s) →
          ∀ v, (Json.object members).slots.lookup slot = some v → ∃ s, v = Json.string s := by
        intro members text v hv
        obtain ⟨key, mem, hkey⟩ := mem_slots_object.1 (mem_of_lookup hv)
        obtain rfl := note.key_eq hkey
        exact text v mem
      exact .inr ⟨note, strings members text, strings members' text'⟩

end Json

/-! ### Spellings read as nodes that compile alike -/

/-- What is left of the content of a slot, whatever the type of its node uses. -/
def Slot.pruned : (slot : Slot) → slot.Content → slot.Content
  | .title, _ | .description, _ => (none : Option String)
  | .items, x => Option.map (Schema.pruned true) x
  | .prefixItems, x | .oneOf, x => Option.map (List.map (Schema.pruned true)) x
  | .properties, x => List.map (fun p => (p.1, Schema.pruned true p.2)) x
  | .type, x | .targetType, x | .enum, x | .declaredFields, x | .default, x => x

namespace Schema

/-- Of nodes with the same left in every slot, the same is left. -/
theorem pruned_eq_of_slots {s s' : Schema}
    (h : ∀ slot : Slot, slot.pruned (s.get slot) = slot.pruned (s'.get slot)) :
    s.pruned true = s'.pruned true := by
  have clear : pruned false = (fun s => { s with default := none }) ∘ pruned true :=
    funext pruned_false
  have type : s.type = s'.type := h .type
  have targetType : s.targetType = s'.targetType := h .targetType
  have properties : s.properties.map (fun p => (p.1, pruned true p.2)) =
      s'.properties.map fun p => (p.1, pruned true p.2) := h .properties
  have items : s.items.map (pruned true) = s'.items.map (pruned true) := h .items
  have prefixItems : s.prefixItems.map (List.map (pruned true)) =
      s'.prefixItems.map (List.map (pruned true)) := h .prefixItems
  have oneOf : s.oneOf.map (List.map (pruned true)) = s'.oneOf.map (List.map (pruned true)) :=
    h .oneOf
  have enum : s.enum = s'.enum := h .enum
  have dflt : s.default = s'.default := h .default
  have declaredFields : s.declaredFields = s'.declaredFields := h .declaredFields
  have nodes : ∀ x : Option (List Schema), x.map (List.map (pruned false)) =
      (x.map (List.map (pruned true))).map (List.map fun s => { s with default := none }) := by
    intro x
    cases x <;> simp [clear]
  rw [pruned_eq, pruned_eq, isArray, isArray, isObject, isObject, isString, isString, type,
    targetType, properties, enum, dflt, declaredFields, nodes, nodes, nodes, nodes, prefixItems,
    oneOf, clear, ← Option.map_map, ← Option.map_map, items]

end Schema

/-- A value reads as a node where another one does, and of the two nodes the same is left. -/
def Json.ReadsLike (w w' : Json) : Prop :=
  ∀ c, Schema.ofJson w = .ok c → ∃ c', Schema.ofJson w' = .ok c' ∧ c.pruned true = c'.pruned true

namespace Slot

theorem exists_nodes {slot : Slot} (list : slot = .prefixItems ∨ slot = .oneOf) {u u' : Json}
    (same : slot.frame u = slot.frame u') (below : slot.NodesRelated Json.ReadsLike u u')
    {x : Option (List Schema)} (read : Schema.unlessNull u (Schema.readings u).nodes = .ok x) :
    ∃ x', Schema.unlessNull u' (Schema.readings u').nodes = .ok x' ∧
      x.map (List.map (Schema.pruned true)) = x'.map (List.map (Schema.pruned true)) := by
  cases x with
  | none =>
    obtain rfl := Schema.unlessNull_eq_none.1 read
    have null : u' = .null := by
      cases u' <;> rcases list with rfl | rfl <;> cases same <;> rfl
    exact ⟨none, Schema.unlessNull_eq_none.2 null, rfl⟩
  | some cs =>
    obtain ⟨us, rfl, decoded⟩ := Schema.nodes_eq_ok.1 (Schema.unlessNull_eq_some.1 read).2
    obtain ⟨us', rfl, related⟩ := exists_list_of_frame list same below
    obtain ⟨cs', decoded', alike⟩ :=
      Forall₂.exists_simulated related decoded fun w w' c like read => like c read
    refine ⟨some cs', Schema.unlessNull_eq_some.2 ⟨by simp, ?_⟩, congrArg some ?_⟩
    · exact Schema.nodeElements_eq_ok.2 decoded'
    · rw [← List.forall₂_eq_eq_eq]
      exact List.forall₂_map_left_iff.2 (List.forall₂_map_right_iff.2 alike)

theorem exists_nodeTable {u u' : Json} (same : Slot.properties.frame u = Slot.properties.frame u')
    (below : Slot.properties.NodesRelated Json.ReadsLike u u') {ps : List (String × Schema)}
    (read : (Schema.readings u).nodeTable () = .ok ps) :
    ∃ ps', (Schema.readings u').nodeTable () = .ok ps' ∧
      ps.map (fun p => (p.1, p.2.pruned true)) = ps'.map fun p => (p.1, p.2.pruned true) := by
  obtain ⟨ms, rfl, decoded⟩ := Schema.nodeTable_eq_ok.1 read
  obtain ⟨ms', rfl, related⟩ := exists_table_of_frame same below
  have simulate : ∀ (m m' : String × Json) (p : String × Schema),
      (m.1 = m'.1 ∧ m.2.ReadsLike m'.2) → (m.1 = p.1 ∧ Schema.ofJson m.2 = .ok p.2) →
      ∃ p' : String × Schema, (m'.1 = p'.1 ∧ Schema.ofJson m'.2 = .ok p'.2) ∧
        (p.1, p.2.pruned true) = (p'.1, p'.2.pruned true) := by
    rintro m m' p ⟨name, like⟩ ⟨name', read⟩
    obtain ⟨c', read', left⟩ := like p.2 read
    exact ⟨(m'.1, c'), ⟨rfl, read'⟩, by rw [← name', name, left]⟩
  obtain ⟨ps', decoded', alike⟩ := Forall₂.exists_simulated related decoded simulate
  refine ⟨ps', Schema.nodeMembers_eq_ok.2 decoded', ?_⟩
  rw [← List.forall₂_eq_eq_eq]
  exact List.forall₂_map_left_iff.2 (List.forall₂_map_right_iff.2 alike)

/-- **Values that differ only in the nodes in them read alike in a slot** if these do. -/
theorem exists_read {slot : Slot} {u u' : Json} (same : slot.frame u = slot.frame u')
    (null : slot = .items → (u = .null ↔ u' = .null))
    (below : slot.NodesRelated Json.ReadsLike u u') {x : slot.Content}
    (read : slot.read u = .ok x) :
    ∃ x', slot.read u' = .ok x' ∧ slot.pruned x = slot.pruned x' := by
  cases slot with
  | items =>
    change Schema.unlessNull u (Schema.readings u).node = .ok x at read
    obtain rfl | ⟨c, rfl⟩ : x = none ∨ ∃ c, x = some c := Option.eq_none_or_eq_some x
    · have null' := (null rfl).1 (Schema.unlessNull_eq_none.1 read)
      exact ⟨none, Schema.unlessNull_eq_none.2 null', rfl⟩
    · obtain ⟨notNull, read⟩ := Schema.unlessNull_eq_some.1 read
      obtain ⟨c', read', left⟩ := below .items u u' rfl rfl rfl c read
      have notNull' : u' ≠ .null := fun null' => notNull ((null rfl).2 null')
      exact ⟨some c', Schema.unlessNull_eq_some.2 ⟨notNull', read'⟩, congrArg some left⟩
  | prefixItems => exact exists_nodes (.inl rfl) same below read
  | oneOf => exact exists_nodes (.inr rfl) same below read
  | properties => exact exists_nodeTable same below read
  | _ =>
    obtain rfl : u = u' := same
    exact ⟨x, read, rfl⟩

theorem exists_gives_text {slot : Slot} (note : slot.IsNote) {v : Option Json}
    (text : ∀ u, v = some u → ∃ s, u = .string s) : ∃ x, slot.Gives v x := by
  cases v with
  | none => rcases note with rfl | rfl <;> exact ⟨_, rfl⟩
  | some u =>
    obtain ⟨s, rfl⟩ := text u rfl
    rcases note with rfl | rfl <;> exact ⟨_, rfl⟩

theorem pruned_note {slot : Slot} (note : slot.IsNote) (x x' : slot.Content) :
    slot.pruned x = slot.pruned x' := by
  rcases note with rfl | rfl <;> rfl

/-- What fills a slot alike gives alike. -/
theorem FilledAlike.exists_gives {slot : Slot} {v v' : Option Json} (alike : slot.FilledAlike v v')
    (null : ∀ u u', v = some u → v' = some u' → slot = .items → (u = .null ↔ u' = .null))
    (below : ∀ u u', v = some u → v' = some u' → slot.NodesRelated Json.ReadsLike u u')
    {x : slot.Content} (gives : slot.Gives v x) :
    ∃ x', slot.Gives v' x' ∧ slot.pruned x = slot.pruned x' := by
  rcases alike with framed | ⟨note, -, text'⟩
  · cases v with
    | none =>
      obtain rfl : v' = none := Option.map_eq_none_iff.1 framed.symm
      exact ⟨x, gives, rfl⟩
    | some u =>
      obtain ⟨u', rfl, same⟩ := Option.map_eq_some_iff.1 framed.symm
      exact exists_read same.symm (null u u' rfl rfl) (below u u' rfl rfl) gives
  · obtain ⟨x', gives'⟩ := exists_gives_text note text'
    exact ⟨x', gives', pruned_note note x x'⟩

end Slot

/-- **A spelling of a document that is read is read**, as a node that compiles alike. -/
theorem Json.Respelled.exists_ofJson {v v' : Json} (h : v.Respelled v')
    (distinct : v.HasDistinctKeys) (distinct' : v'.HasDistinctKeys) : v.ReadsLike v' := by
  induction v using Json.induction generalizing v' with
  | step v ih =>
    intro s decoded
    -- one slot after the other; the node of the other spelling is put together from its slots
    cases h with
    | same => exact ⟨s, decoded, rfl⟩
    | node spelled below =>
      obtain ⟨once, gives⟩ := Schema.ofJson_eq_ok.1 decoded
      have once' := spelled.fillsOnce distinct distinct' once
      have each : ∀ slot : Slot, ∃ x', slot.Gives (v'.slots.lookup slot) x' ∧
          slot.pruned (s.get slot) = slot.pruned x' := by
        intro slot
        have alike := spelled.filledAlike distinct distinct' once once' slot
        refine alike.exists_gives (fun u u' hu hu' items => ?_)
          (fun u u' hu hu' b w w' hb finds finds' => ?_) (gives slot)
        · subst items
          have held : v.Holds .items u := ⟨u, mem_of_lookup hu, rfl⟩
          have held' : v'.Holds .items u' := ⟨u', mem_of_lookup hu', rfl⟩
          exact (below .items u u' held held').null_iff
        · subst hb
          have held : v.Holds b w := ⟨u, mem_of_lookup hu, finds⟩
          have held' : v'.Holds b w' := ⟨u', mem_of_lookup hu', finds'⟩
          obtain ⟨k, inside⟩ := held.inside
          obtain ⟨k', inside'⟩ := held'.inside
          exact ih k w inside (below b w w' held held') (distinct.inside inside)
            (distinct'.inside inside')
      choose content gives' left using each
      refine ⟨Schema.ofSlots content, Schema.ofJson_eq_ok.2 ⟨once', fun slot => ?_⟩,
        Schema.pruned_eq_of_slots fun slot => ?_⟩
      · rw [Schema.get_ofSlots]
        exact gives' slot
      · rw [Schema.get_ofSlots]
        exact left slot

/-! ### Spellings compile to the same -/

/-- A check that does not tell spellings from each other lets them be read together. -/
theorem Json.Respelled.read {validator : Validator} {d d' : Json} (h : d.Respelled d')
    (known : validator = Validator.metaSchema ∨ validator = Validator.acceptAll)
    (distinct : d.HasDistinctKeys) (distinct' : d'.HasDistinctKeys)
    (read : validator d = .ok () ∧ ∃ root, Schema.ofJson d = .ok root) :
    validator d' = .ok () ∧ ∃ root, Schema.ofJson d' = .ok root := by
  obtain ⟨valid, root, decoded⟩ := read
  obtain ⟨root', decoded', -⟩ := h.exists_ofJson distinct distinct' root decoded
  refine ⟨?_, root', decoded'⟩
  rcases known with rfl | rfl
  · have accepted := MetaSchema.metaSchema_eq_ok.1 valid
    exact MetaSchema.metaSchema_eq_ok.2 (h.accepts distinct distinct' accepted)
  · rfl

/-- **Spelling is immaterial.**  Two spellings of a document that nest within the limits compile to
the same model, or both are malformed, or both fail in the same way at the same place. -/
theorem spelling_is_immaterial (d d' : Json) (document : d.IsDocument) (document' : d'.IsDocument)
    (respelled : d.Respelled d') (passed : Nesting.check d = .ok ())
    (passed' : Nesting.check d' = .ok ()) (validator : Validator)
    (known : validator = Validator.metaSchema ∨ validator = Validator.acceptAll)
    (options : Options) :
    (∃ m, compile options validator d = .ok m ∧ compile options validator d' = .ok m) ∨
    (∃ detail detail', compile options validator d = .error (.schemaFormat detail) ∧
      compile options validator d' = .error (.schemaFormat detail')) ∨
    ∃ e, compile options validator d = .error e ∧ compile options validator d' = .error e ∧
      ((∃ l name, e = .unknownType l name) ∨
        (∃ l property declared, e = .invalidFieldList l property declared) ∨
        ∃ l limit, e = .nestingTooDeep l limit) := by
  have distinct := document.distinct
  have distinct' := document'.distinct
  by_cases read : validator d = .ok () ∧ ∃ root, Schema.ofJson d = .ok root
  · obtain ⟨valid', -⟩ := respelled.read known distinct distinct' read
    obtain ⟨valid, root, decoded⟩ := read
    obtain ⟨root', decoded', left⟩ := respelled.exists_ofJson distinct distinct' root decoded
    have finite := Schema.hasFiniteDefaults_of_decoded document.finite decoded
    have finite' := Schema.hasFiniteDefaults_of_decoded document'.finite decoded'
    have pruned : root.pruned false = root'.pruned false := by
      rw [Schema.pruned_false, Schema.pruned_false, left]
    have same := Schema.compile_eq_of_pruned_eq finite finite' pruned options
    rw [compile_eq_of_read passed valid decoded, compile_eq_of_read passed' valid' decoded', ← same]
    cases compiled : root.compile options with
    | ok m => exact .inl ⟨m, rfl, rfl⟩
    | error e =>
      refine .inr (.inr ⟨e, rfl, rfl, ?_⟩)
      cases e with
      | schemaFormat detail => cases Schema.located_of_compile_error compiled
      | unsupportedLiteral l literal =>
        obtain ⟨bs, n, v, walk, hv, unwritten⟩ := Schema.exists_default_of_compile_error compiled
        obtain ⟨s, written⟩ := (finite bs n v walk hv).exists_toLiteral_eq_ok
        cases unwritten.symm.trans written
      | unknownType l name => exact .inl ⟨l, name, rfl⟩
      | invalidFieldList l property declared => exact .inr (.inl ⟨l, property, declared, rfl⟩)
      | nestingTooDeep l limit => exact .inr (.inr ⟨l, limit, rfl⟩)
  · have unread' : ¬ (validator d' = .ok () ∧ ∃ root, Schema.ofJson d' = .ok root) :=
      fun read' => read (respelled.symm.read known distinct' distinct read')
    have malformed : ∃ detail, compile options validator d = .error (.schemaFormat detail) :=
      exists_schemaFormat_of_unread passed read
    have malformed' : ∃ detail, compile options validator d' = .error (.schemaFormat detail) :=
      exists_schemaFormat_of_unread passed' unread'
    obtain ⟨detail, malformed⟩ := malformed
    obtain ⟨detail', malformed'⟩ := malformed'
    exact .inr (.inl ⟨detail, detail', malformed, malformed'⟩)

/-- A room with a size. -/
def roomDocument : Json :=
  .object [("type", .string "object"), ("target_type", .string "Room"),
    ("properties", .object [("size", .object [("type", .string "integer")])]),
    ("cpp_fields", .array [.string "size"])]

/-- The node of the room. -/
def room : Schema :=
  { Schema.ofTypeName "object" with
    targetType := some "Room"
    properties := [("size", Schema.ofTypeName "integer")]
    declaredFields := some ["size"] }

/-- The room in another spelling: with the other key of its target, in another order, with notes
and with a key that is not known. -/
def notedRoomDocument : Json :=
  .object [("version", .number (.int 2)), ("cpp_fields", .array [.string "size"]),
    ("title", .string "Room"),
    ("properties", .object
      [("size", .object [("description", .string "in seats"), ("type", .string "integer")])]),
    ("cpp_type", .string "Room"), ("type", .string "object")]

theorem roomDocument_respelled : roomDocument.Respelled notedRoomDocument := by
  have size : (Json.object [("type", .string "integer")]).Respelled
      (.object [("description", .string "in seats"), ("type", .string "integer")]) := by
    refine .node (.object fun slot => ?_) ?_
    · cases slot with
      | description => exact .note (.inr rfl) (by simp [Slot.key]) (by simp [Slot.key])
      | _ =>
        refine .sameKeys fun key hkey => ?_
        rcases Slot.ofKey?_eq_some.1 hkey with rfl | ⟨-, rfl⟩ | ⟨-, rfl⟩ <;> rfl
    · rintro b w w' ⟨u, mem, -⟩
      cases b <;> simp [Json.slots, Slot.ofKey?, Branch.slot] at mem
  refine .node (.object fun slot => ?_) ?_
  · cases slot with
    | targetType =>
      refine .oneKey (?_ : Slot.FilledOnce _ _ "target_type" (.string "Room"))
        (?_ : Slot.FilledOnce _ _ "cpp_type" _)
      · exact ⟨rfl, by simp, by decide⟩
      · exact ⟨rfl, by simp, by decide⟩
    | declaredFields =>
      refine .sameKeys fun key hkey => ?_
      rcases Slot.ofKey?_eq_some.1 hkey with rfl | ⟨other, -⟩ | ⟨-, rfl⟩
      · rfl
      · cases other
      · rfl
    | title => exact .note (.inl rfl) (by simp [Slot.key]) (by simp [Slot.key])
    | _ =>
      refine .sameKeys fun key hkey => ?_
      rcases Slot.ofKey?_eq_some.1 hkey with rfl | ⟨other, -⟩ | ⟨other, -⟩
      · rfl
      · cases other
      · cases other
  · rintro b w w' ⟨u, mem, finds⟩ ⟨u', mem', finds'⟩
    cases b with
    | property name =>
      obtain rfl : u = .object [("size", .object [("type", .string "integer")])] := by
        simpa [roomDocument, Json.slots, Slot.ofKey?, Branch.slot] using mem
      obtain rfl : u' = .object [("size",
          .object [("description", .string "in seats"), ("type", .string "integer")])] := by
        simpa [notedRoomDocument, Json.slots, Slot.ofKey?, Branch.slot] using mem'
      obtain ⟨ms, same, held⟩ := finds
      obtain ⟨ms', same', held'⟩ := finds'
      cases same
      cases same'
      cases List.mem_singleton.1 held
      cases List.mem_singleton.1 held'
      exact size
    | _ => simp [roomDocument, Json.slots, Slot.ofKey?, Branch.slot] at mem

theorem roomDocument_compiles :
    roomDocument.IsDocument ∧ notedRoomDocument.IsDocument ∧
      Nesting.check roomDocument = .ok () ∧ Nesting.check notedRoomDocument = .ok () ∧
      roomDocument.Respelled notedRoomDocument ∧
      ∃ m, compile {} Validator.metaSchema roomDocument = .ok m ∧
        compile {} Validator.metaSchema notedRoomDocument = .ok m := by
  have two : (Json.number (.int 2)).IsDocument := Json.isDocument_number rfl
  have fields : (Json.array [.string "size"]).IsDocument :=
    Json.isDocument_array (by simp [Json.isDocument_string])
  have size : (Json.object [("type", .string "integer")]).IsDocument :=
    Json.isDocument_object (by decide) (by simp [Json.isDocument_string])
  have noted : (Json.object
      [("description", .string "in seats"), ("type", .string "integer")]).IsDocument :=
    Json.isDocument_object (by decide) (by simp [Json.isDocument_string])
  have table : ∀ v : Json, v.IsDocument → (Json.object [("size", v)]).IsDocument :=
    fun v document => Json.isDocument_object (List.nodup_singleton _) (by simpa using document)
  have document : roomDocument.IsDocument :=
    Json.isDocument_object (by decide) (by simp [Json.isDocument_string, table, size, fields])
  have document' : notedRoomDocument.IsDocument :=
    Json.isDocument_object (by decide)
      (by simp [Json.isDocument_string, table, two, noted, fields])
  have passed : Nesting.check roomDocument = .ok () := by cbv
  have passed' : Nesting.check notedRoomDocument = .ok () := by cbv
  obtain ⟨m, compiled⟩ : ∃ m, compile {} Validator.metaSchema roomDocument = .ok m := by
    have decoded : Schema.ofJson roomDocument = .ok room := rfl
    rw [compile_eq_of_read passed rfl decoded]
    exact ⟨_, rfl⟩
  refine ⟨document, document', passed, passed', roomDocument_respelled, m, compiled, ?_⟩
  obtain ⟨m', compiled', same⟩ | ⟨detail, -, malformed, -⟩ | ⟨e, failed, -⟩ :=
    spelling_is_immaterial roomDocument notedRoomDocument document document'
      roomDocument_respelled passed passed' Validator.metaSchema (.inl rfl) {}
  · cases compiled.symm.trans compiled'
    exact same
  · cases compiled.symm.trans malformed
  · cases compiled.symm.trans failed

end SchemaModel
