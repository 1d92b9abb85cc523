import SchemaModel.Proofs.Lists
import SchemaModel.Typed.Resolve

/-!
# Walks through a tree of nodes

A walk goes from a node to one of its child nodes at every step.  A step is a `Branch`; it names
the slot of the child node and, where the slot holds several, its index or name.  The same branches
lead through a raw document, through its schema nodes and through their typed forms, and they say
where one is: `Location.along` spells them out as the location that errors and definitions report.

* `Branch`, `Location.along` — the steps of a walk and the place they lead to;
* `Walk` — the walks along a child relation; `Walk.simulate` moves a walk from one tree to another;
* `Json.Child`, `Schema.Child`, `Typed.Child` — the child nodes in the three kinds of trees;
* `Schema.UsedChild` — the child nodes that the type of a node uses;
* `Location.along_injective` — a place is reached by one walk only;
* `Schema.induction`, `Typed.induction`, `Json.induction` — what holds of a node if it holds of all
  nodes below holds of every node.
-/

namespace SchemaModel

/-! ### Branches and the places they lead to -/

/-- A step from a node to a child node. -/
inductive Branch where
  | items
  | prefixItem (i : Nat)
  | alternative (i : Nat)
  | property (name : String)
deriving DecidableEq, Repr

/-- The steps into the document that a branch stands for. -/
def Branch.steps : Branch → List Location.Step
  | .items => [.key "items"]
  | .prefixItem i => [.key "prefixItems", .index i]
  | .alternative i => [.key "oneOf", .index i]
  | .property name => [.key "properties", .key name]

/-- The slot that a branch goes through. -/
def Branch.slot : Branch → Slot
  | .items => .items
  | .prefixItem _ => .prefixItems
  | .alternative _ => .oneOf
  | .property _ => .properties

/-- The steps of a branch inside the value of its slot. -/
def Branch.inner : Branch → List Location.Step
  | .items => []
  | .prefixItem i | .alternative i => [.index i]
  | .property name => [.key name]

theorem Branch.steps_eq (b : Branch) : b.steps = .key b.slot.key :: b.inner := by
  cases b <;> rfl

namespace Location

/-- The place that branches lead to from a place on. -/
def along (l : Location) (bs : List Branch) : Location := ⟨l.steps ++ bs.flatMap Branch.steps⟩

@[simp] theorem along_nil (l : Location) : l.along [] = l := by simp [along]

theorem along_items (l : Location) : l.along [.items] = l.key "items" := by
  simp [along, key, Branch.steps]

theorem along_prefixItem (l : Location) (i : Nat) :
    l.along [.prefixItem i] = (l.key "prefixItems").index i := by
  simp [along, key, index, Branch.steps]

theorem along_alternative (l : Location) (i : Nat) :
    l.along [.alternative i] = (l.key "oneOf").index i := by
  simp [along, key, index, Branch.steps]

theorem along_property (l : Location) (name : String) :
    l.along [.property name] = (l.key "properties").key name := by
  simp [along, key, Branch.steps]

theorem along_cons (l : Location) (b : Branch) (bs : List Branch) :
    l.along (b :: bs) = (l.along [b]).along bs := by
  simp [along]

theorem along_append (l : Location) (bs cs : List Branch) :
    l.along (bs ++ cs) = (l.along bs).along cs := by
  simp [along]

theorem steps_along_cons (b : Branch) (bs : List Branch) :
    (root.along (b :: bs)).steps = b.steps ++ (root.along bs).steps := by
  simp [along, root]

/-- The first branch can be read off the first steps, and so on to the end. -/
theorem flatMap_steps_injective {bs cs : List Branch}
    (h : bs.flatMap Branch.steps = cs.flatMap Branch.steps) : bs = cs := by
  induction bs generalizing cs with
  | nil =>
    cases cs with
    | nil => rfl
    | cons c cs => cases c <;> simp [Branch.steps] at h
  | cons b bs ih =>
    cases cs with
    | nil => cases b <;> simp [Branch.steps] at h
    | cons c cs =>
      have first : b = c ∧ bs.flatMap Branch.steps = cs.flatMap Branch.steps := by
        cases b <;> cases c <;> simp_all [Branch.steps]
      rw [first.1, ih first.2]

theorem along_injective (l : Location) {bs cs : List Branch} (h : l.along bs = l.along cs) :
    bs = cs := by
  have same : l.steps ++ bs.flatMap Branch.steps = l.steps ++ cs.flatMap Branch.steps :=
    congrArg Location.steps h
  exact flatMap_steps_injective (List.append_cancel_left same)

end Location

/-! ### Walks -/

/-- From the first node, the branches lead to the last one. -/
inductive Walk {α : Type} (Child : α → Branch → α → Prop) : α → List Branch → α → Prop
  | here (x : α) : Walk Child x [] x
  | down {x y z : α} {b : Branch} {bs : List Branch} :
      Child x b y → Walk Child y bs z → Walk Child x (b :: bs) z

namespace Walk

variable {α β : Type} {Child : α → Branch → α → Prop} {Child' : β → Branch → β → Prop}

/-- **A walk carries over along a relation that every step keeps.** -/
theorem simulate {R : α → β → Prop}
    (step : ∀ {x y b x'}, R x x' → Child x b y → ∃ y', Child' x' b y' ∧ R y y')
    {x z : α} {bs : List Branch} (walk : Walk Child x bs z) {x' : β} (start : R x x') :
    ∃ z', Walk Child' x' bs z' ∧ R z z' := by
  induction walk generalizing x' with
  | here x => exact ⟨x', .here x', start⟩
  | down child _ ih =>
    obtain ⟨y', child', related⟩ := step start child
    obtain ⟨z', walk', related'⟩ := ih related
    exact ⟨z', .down child' walk', related'⟩

/-- A branch of a walk is taken from a node that the walk comes to. -/
theorem exists_child_of_mem {x z : α} {b : Branch} {bs : List Branch} (walk : Walk Child x bs z)
    (mem : b ∈ bs) : ∃ cs y y', Walk Child x cs y ∧ Child y b y' := by
  induction walk with
  | here x => cases mem
  | down child _ ih =>
    rcases List.mem_cons.1 mem with rfl | mem
    · exact ⟨[], _, _, .here _, child⟩
    · obtain ⟨cs, y, y', walk, child'⟩ := ih mem
      exact ⟨_ :: cs, y, y', .down child walk, child'⟩

theorem mono {Other : α → Branch → α → Prop} (sub : ∀ {x b y}, Child x b y → Other x b y)
    {x z : α} {bs : List Branch} (walk : Walk Child x bs z) : Walk Other x bs z := by
  induction walk with
  | here x => exact .here x
  | down child _ ih => exact .down (sub child) ih

end Walk

/-! ### Child nodes -/

/-- A branch leads from one raw node to another. -/
def Json.Child : Json → Branch → Json → Prop
  | .object members, .items, v => ("items", v) ∈ members
  | .object members, .prefixItem i, v =>
    ∃ nodes, ("prefixItems", .array nodes) ∈ members ∧ nodes[i]? = some v
  | .object members, .alternative i, v =>
    ∃ nodes, ("oneOf", .array nodes) ∈ members ∧ nodes[i]? = some v
  | .object members, .property name, v =>
    ∃ nodes, ("properties", .object nodes) ∈ members ∧ (name, v) ∈ nodes
  | _, _, _ => False

/-- What a branch finds in the value of its slot. -/
def Branch.Finds : Branch → Json → Json → Prop
  | .items, u, v => u = v
  | .prefixItem i, u, v | .alternative i, u, v => ∃ nodes, u = .array nodes ∧ nodes[i]? = some v
  | .property name, u, v => ∃ nodes, u = .object nodes ∧ (name, v) ∈ nodes

theorem Json.child_iff_finds {members : List (String × Json)} {b : Branch} {v : Json} :
    (Json.object members).Child b v ↔ ∃ u, (b.slot.key, u) ∈ members ∧ b.Finds u v := by
  cases b <;> simp [Json.Child, Branch.Finds, Branch.slot, Slot.key]

namespace Schema

/-- A branch leads from one schema node to another. -/
def Child (s : Schema) : Branch → Schema → Prop
  | .items, c => s.items = some c
  | .prefixItem i, c => ∃ nodes, s.prefixItems = some nodes ∧ nodes[i]? = some c
  | .alternative i, c => ∃ nodes, s.oneOf = some nodes ∧ nodes[i]? = some c
  | .property name, c => (name, c) ∈ s.properties

/-- The items, if the type of the node uses them. -/
def usedItems (s : Schema) : Option Schema := if s.isArray then s.items else none

/-- The prefix items, if the type of the node uses them. -/
def usedPrefixItems (s : Schema) : List Schema := if s.isArray then s.prefixItems.getD [] else []

/-- The alternatives, if the type of the node uses them. -/
def usedOneOf (s : Schema) : List Schema := if s.isObject then s.oneOf.getD [] else []

/-- A branch that the type of the node uses leads to another node; properties are always used. -/
def UsedChild (s : Schema) : Branch → Schema → Prop
  | .items, c => s.usedItems = some c
  | .prefixItem i, c => s.usedPrefixItems[i]? = some c
  | .alternative i, c => s.usedOneOf[i]? = some c
  | .property name, c => (name, c) ∈ s.properties

theorem UsedChild.child {s c : Schema} {b : Branch} (h : s.UsedChild b c) : s.Child b c := by
  cases b with
  | items =>
    simp only [UsedChild, usedItems] at h
    split at h
    · exact h
    · cases h
  | prefixItem i =>
    simp only [UsedChild, usedPrefixItems] at h
    cases hs : s.prefixItems with
    | none => simp [hs] at h
    | some nodes => exact ⟨nodes, hs, by split at h <;> simp_all⟩
  | alternative i =>
    simp only [UsedChild, usedOneOf] at h
    cases hs : s.oneOf with
    | none => simp [hs] at h
    | some nodes => exact ⟨nodes, hs, by split at h <;> simp_all⟩
  | property name => exact h

theorem exists_usedChild_of_mem_prefixItems {s c : Schema} (h : c ∈ s.usedPrefixItems) :
    ∃ b, s.UsedChild b c := by
  obtain ⟨i, hi⟩ := List.mem_iff_getElem?.1 h
  exact ⟨.prefixItem i, hi⟩

theorem exists_usedChild_of_mem_oneOf {s c : Schema} (h : c ∈ s.usedOneOf) :
    ∃ b, s.UsedChild b c := by
  obtain ⟨i, hi⟩ := List.mem_iff_getElem?.1 h
  exact ⟨.alternative i, hi⟩

end Schema

/-- A branch leads from one typed node to another. -/
def Typed.Child (t : Typed) : Branch → Typed → Prop
  | .items, c => t.items = some c
  | .prefixItem i, c => t.prefixItems[i]? = some c
  | .alternative i, c => t.oneOf[i]? = some c
  | .property name, c => (name, c) ∈ t.properties

/-! ### Values inside values -/

/-- A value is an element of an array or stands under a key of an object. -/
def Json.Part : Json → Json → Prop
  | .array items, v => v ∈ items
  | .object members, v => ∃ key, (key, v) ∈ members
  | _, _ => False

/-- A value lies a number of steps inside another. -/
inductive Json.Inside : Json → Nat → Json → Prop
  | here (v : Json) : v.Inside 0 v
  | deeper {v u w : Json} {k : Nat} : v.Part u → u.Inside k w → v.Inside (k + 1) w

theorem Json.Inside.trans {v u w : Json} {k m : Nat} (first : v.Inside k u)
    (second : u.Inside m w) : v.Inside (k + m) w := by
  induction first with
  | here v => rwa [Nat.zero_add]
  | deeper part _ ih =>
    rw [Nat.add_right_comm]
    exact .deeper part (ih second)

theorem Branch.Finds.inside {b : Branch} {u w : Json} (finds : b.Finds u w) :
    ∃ k, u.Inside k w := by
  cases b with
  | items =>
    cases finds
    exact ⟨0, .here u⟩
  | property name =>
    obtain ⟨nodes, rfl, mem⟩ := finds
    exact ⟨1, .deeper ⟨name, mem⟩ (.here w)⟩
  | _ =>
    obtain ⟨nodes, rfl, hi⟩ := finds
    exact ⟨1, .deeper (List.mem_of_getElem? hi) (.here w)⟩

theorem Json.Child.inside {v w : Json} {b : Branch} (child : v.Child b w) :
    ∃ k, v.Inside (k + 1) w := by
  cases v with
  | object members =>
    obtain ⟨u, mem, finds⟩ := Json.child_iff_finds.1 child
    obtain ⟨k, inside⟩ := finds.inside
    exact ⟨k, .deeper ⟨_, mem⟩ inside⟩
  | _ => exact child.elim

/-! ### Induction over nodes -/

theorem Schema.sizeOf_lt_of_child {s c : Schema} {b : Branch} (h : s.Child b c) :
    sizeOf c < sizeOf s := by
  cases s
  cases b with
  | items =>
    simp only [Schema.Child] at h
    rw [Schema.mk.sizeOf_spec, h, Option.some.sizeOf_spec]
    omega
  | prefixItem i =>
    obtain ⟨nodes, hs, hc⟩ := h
    have below := sizeOf_lt_of_getElem? hc
    simp only at hs
    rw [Schema.mk.sizeOf_spec, hs, Option.some.sizeOf_spec]
    omega
  | alternative i =>
    obtain ⟨nodes, hs, hc⟩ := h
    have below := sizeOf_lt_of_getElem? hc
    simp only at hs
    rw [Schema.mk.sizeOf_spec, hs, Option.some.sizeOf_spec]
    omega
  | property name =>
    have below := sizeOf_snd_lt_of_mem h
    rw [Schema.mk.sizeOf_spec]
    simp only at below
    omega

theorem Schema.induction {P : Schema → Prop}
    (step : ∀ s : Schema, (∀ b c, s.Child b c → P c) → P s) (s : Schema) : P s :=
  step s fun _ c child =>
    have := Schema.sizeOf_lt_of_child child
    Schema.induction step c
termination_by sizeOf s

theorem Typed.sizeOf_lt_of_child {t c : Typed} {b : Branch} (h : t.Child b c) :
    sizeOf c < sizeOf t := by
  cases t
  cases b with
  | items =>
    simp only [Typed.Child] at h
    rw [Typed.mk.sizeOf_spec, h, Option.some.sizeOf_spec]
    omega
  | prefixItem i =>
    have below := sizeOf_lt_of_getElem? h
    rw [Typed.mk.sizeOf_spec]
    simp only at below
    omega
  | alternative i =>
    have below := sizeOf_lt_of_getElem? h
    rw [Typed.mk.sizeOf_spec]
    simp only at below
    omega
  | property name =>
    have below := sizeOf_snd_lt_of_mem h
    rw [Typed.mk.sizeOf_spec]
    simp only at below
    omega

theorem Typed.induction {P : Typed → Prop}
    (step : ∀ t : Typed, (∀ b c, t.Child b c → P c) → P t) (t : Typed) : P t :=
  step t fun _ c child =>
    have := Typed.sizeOf_lt_of_child child
    Typed.induction step c
termination_by sizeOf t

theorem Json.size_le_sizeOfItems {items : List Json} {u : Json} (mem : u ∈ items) :
    u.size ≤ sizeOfItems items := by
  induction items with
  | nil => cases mem
  | cons v rest ih =>
    rw [sizeOfItems]
    rcases List.mem_cons.1 mem with rfl | mem
    · exact Nat.le_add_right _ _
    · exact Nat.le_add_left_of_le (ih mem)

theorem Json.size_le_sizeOfMembers {members : List (String × Json)} {key : String} {u : Json}
    (mem : (key, u) ∈ members) : u.size ≤ sizeOfMembers members := by
  induction members with
  | nil => cases mem
  | cons m rest ih =>
    rw [sizeOfMembers]
    rcases List.mem_cons.1 mem with rfl | mem
    · exact Nat.le_add_right _ _
    · exact Nat.le_add_left_of_le (ih mem)

theorem Json.size_lt_of_part {v u : Json} (h : v.Part u) : u.size < v.size := by
  cases v with
  | array items =>
    have below := size_le_sizeOfItems (show u ∈ items from h)
    rw [size]
    omega
  | object members =>
    obtain ⟨key, mem⟩ := h
    have below := size_le_sizeOfMembers mem
    rw [size]
    omega
  | _ => exact h.elim

theorem Json.size_lt_of_inside {v u : Json} {k : Nat} (h : v.Inside (k + 1) u) :
    u.size < v.size := by
  induction k generalizing v with
  | zero =>
    obtain ⟨⟩ | ⟨part, inside⟩ := h
    cases inside
    exact size_lt_of_part part
  | succ k ih =>
    obtain ⟨⟩ | ⟨part, inside⟩ := h
    exact Nat.lt_trans (ih inside) (size_lt_of_part part)

theorem Json.induction {P : Json → Prop}
    (step : ∀ v : Json, (∀ k u, v.Inside (k + 1) u → P u) → P v) (v : Json) : P v :=
  step v fun _ u inside =>
    have := Json.size_lt_of_inside inside
    Json.induction step u
termination_by v.size

end SchemaModel
