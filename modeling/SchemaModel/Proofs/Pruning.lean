import SchemaModel.Proofs.Definitions
import SchemaModel.Proofs.NestingBounds

/-!
# What a compilation does not look at

A node keeps everything that it was given.  Much of it is never looked at: child nodes and lists
that its type does not use, titles and descriptions, and default values of nodes that are no
property.  Pruning takes all of that away, at every node.  Resolving a pruned tree gives the pruned
form of the resolved tree, and a search for definitions finds the same in both.

* `Schema.pruned`, `Typed.pruned` — what is left of a tree;
* `Schema.HasFiniteDefaults` — the default values of a tree hold finite numbers only;
* `Typed.resolveNode_pruned` — pruning goes through the resolver;
* `Definition.fromChildren_pruned` — and makes no difference to the search for definitions;
* `Schema.compile_eq_of_pruned_eq` — trees of which the same is left compile alike;
* `pruning_changes_nothing` — a tree compiles as what is left of it.
-/

namespace SchemaModel

open Outcome

/-! ### Pruned trees -/

namespace Schema

mutual

/-- The node without the slots that its type does not use, without its title and description and
without an empty list of declared fields, and so for all nodes below.  The default value is left
only at a property. -/
def pruned (isProperty : Bool) : Schema → Schema
  | ⟨type, targetType, _, _, properties, items, prefixItems, oneOf, enum, dflt, declaredFields⟩ =>
    { type
      targetType
      title := none
      description := none
      properties := prunedProperties properties
      items :=
        if type.isName "array" then
          match items with
          | some c => some (pruned false c)
          | none => none
        else none
      prefixItems :=
        if type.isName "array" then
          match prefixItems with
          | some nodes => some (prunedList nodes)
          | none => none
        else none
      oneOf :=
        if type.isName "object" then
          match oneOf with
          | some nodes => some (prunedList nodes)
          | none => none
        else none
      enum := if type.isName "string" then enum else none
      default := if isProperty then dflt else none
      declaredFields :=
        if type.isName "object" then declaredFields.filter fun names => !names.isEmpty else none }
termination_by structural s => s

/-- What is left of the nodes of a list. -/
def prunedList : List Schema → List Schema
  | [] => []
  | s :: rest => pruned false s :: prunedList rest
termination_by structural ss => ss

/-- What is left of the properties of a node. -/
def prunedProperties : List (String × Schema) → List (String × Schema)
  | [] => []
  | (name, s) :: rest => (name, pruned true s) :: prunedProperties rest
termination_by structural ps => ps

end

theorem prunedList_eq (ss : List Schema) : prunedList ss = ss.map (pruned false) := by
  induction ss with
  | nil => rfl
  | cons s rest ih => rw [prunedList, ih, List.map_cons]

theorem prunedProperties_eq (ps : List (String × Schema)) :
    prunedProperties ps = ps.map fun p => (p.1, p.2.pruned true) := by
  induction ps with
  | nil => rfl
  | cons p rest ih => rw [prunedProperties, ih, List.map_cons]

/-- What is left of a node, slot by slot. -/
theorem pruned_eq (isProperty : Bool) (s : Schema) :
    s.pruned isProperty =
      { type := s.type
        targetType := s.targetType
        title := none
        description := none
        properties := s.properties.map fun p => (p.1, p.2.pruned true)
        items := if s.isArray then s.items.map (pruned false) else none
        prefixItems := if s.isArray then s.prefixItems.map (List.map (pruned false)) else none
        oneOf := if s.isObject then s.oneOf.map (List.map (pruned false)) else none
        enum := if s.isString then s.enum else none
        default := if isProperty then s.default else none
        declaredFields :=
          if s.isObject then s.declaredFields.filter fun names => !names.isEmpty else none } := by
  obtain ⟨type, targetType, title, description, properties, items, prefixItems, oneOf, enum, dflt,
    declaredFields⟩ := s
  rw [pruned.eq_def]
  simp only [prunedList_eq, prunedProperties_eq]
  cases items <;> cases prefixItems <;> cases oneOf <;> rfl

/-- A node that is no property is left without its default. -/
theorem pruned_false (s : Schema) : s.pruned false = { s.pruned true with default := none } := by
  rw [pruned_eq, pruned_eq]
  rfl

variable (isProperty : Bool) (s : Schema)

@[simp] theorem pruned_type : (s.pruned isProperty).type = s.type := by rw [pruned_eq]

@[simp] theorem pruned_targetType : (s.pruned isProperty).targetType = s.targetType := by
  rw [pruned_eq]

@[simp] theorem pruned_properties :
    (s.pruned isProperty).properties = s.properties.map fun p => (p.1, p.2.pruned true) := by
  rw [pruned_eq]

@[simp] theorem pruned_isArray : (s.pruned isProperty).isArray = s.isArray := by simp [isArray]

@[simp] theorem pruned_isObject : (s.pruned isProperty).isObject = s.isObject := by
  simp [isObject]

@[simp] theorem pruned_isString : (s.pruned isProperty).isString = s.isString := by
  simp [isString]

theorem pruned_usedItems :
    (s.pruned isProperty).usedItems = s.usedItems.map (pruned false) := by
  rw [usedItems, usedItems, pruned_isArray, pruned_eq]
  cases s.isArray <;> rfl

theorem pruned_usedPrefixItems :
    (s.pruned isProperty).usedPrefixItems = s.usedPrefixItems.map (pruned false) := by
  rw [usedPrefixItems, usedPrefixItems, pruned_isArray, pruned_eq]
  cases s.isArray <;> cases s.prefixItems <;> rfl

theorem pruned_usedOneOf :
    (s.pruned isProperty).usedOneOf = s.usedOneOf.map (pruned false) := by
  rw [usedOneOf, usedOneOf, pruned_isObject, pruned_eq]
  cases s.isObject <;> cases s.oneOf <;> rfl

end Schema

namespace Typed

mutual

/-- A resolved node whose schema nodes are pruned, here and below. -/
def pruned (isProperty : Bool) : Typed → Typed
  | ⟨schema, descriptor, items, prefixItems, oneOf, properties⟩ =>
    { schema := schema.pruned isProperty
      descriptor
      items :=
        match items with
        | some c => some (pruned false c)
        | none => none
      prefixItems := prunedList prefixItems
      oneOf := prunedList oneOf
      properties := prunedProperties properties }
termination_by structural t => t

/-- The pruned forms of the nodes of a list. -/
def prunedList : List Typed → List Typed
  | [] => []
  | t :: rest => pruned false t :: prunedList rest
termination_by structural ts => ts

/-- The pruned forms of the properties of a node. -/
def prunedProperties : List (String × Typed) → List (String × Typed)
  | [] => []
  | (name, t) :: rest => (name, pruned true t) :: prunedProperties rest
termination_by structural ps => ps

end

theorem prunedList_eq (ts : List Typed) : prunedList ts = ts.map (pruned false) := by
  induction ts with
  | nil => rfl
  | cons t rest ih => rw [prunedList, ih, List.map_cons]

theorem prunedProperties_eq (ps : List (String × Typed)) :
    prunedProperties ps = ps.map fun p => (p.1, p.2.pruned true) := by
  induction ps with
  | nil => rfl
  | cons p rest ih => rw [prunedProperties, ih, List.map_cons]

theorem pruned_eq (isProperty : Bool) (t : Typed) :
    t.pruned isProperty =
      ⟨t.schema.pruned isProperty, t.descriptor, t.items.map (pruned false),
        t.prefixItems.map (pruned false), t.oneOf.map (pruned false),
        t.properties.map fun p => (p.1, p.2.pruned true)⟩ := by
  obtain ⟨schema, descriptor, items, prefixItems, oneOf, properties⟩ := t
  rw [pruned.eq_def]
  simp only [prunedList_eq, prunedProperties_eq]
  cases items <;> rfl

@[simp] theorem pruned_descriptor (isProperty : Bool) (t : Typed) :
    (t.pruned isProperty).descriptor = t.descriptor := by rw [pruned_eq]

/-! ### Pruning goes through the resolver -/

variable (options : Options)

/-- What is left of a node resolves to the pruned form of the node, wherever it stands. -/
def PrunesTo (s : Schema) : Prop :=
  ∀ isProperty l depth f, resolveNode options l depth (s.pruned isProperty) f =
    (resolveNode options l depth s f).map (Prod.map (pruned isProperty) id)

variable {options}

theorem resolveItem_pruned {s : Option Schema} (each : ∀ c, s = some c → PrunesTo options c)
    (l : Location) (depth : Nat) (f : Findings) :
    resolveItem options l depth (s.map (Schema.pruned false)) f =
      (resolveItem options l depth s f).map (Prod.map (Option.map (pruned false)) id) := by
  cases s with
  | none => rfl
  | some s => exact bind_eq_map (each s rfl false l depth f) fun _ => rfl

theorem resolveList_pruned {ss : List Schema} (each : ∀ s ∈ ss, PrunesTo options s) (l : Location)
    (depth i : Nat) (f : Findings) :
    resolveList options l depth i (ss.map (Schema.pruned false)) f =
      (resolveList options l depth i ss f).map (Prod.map (List.map (pruned false)) id) := by
  induction ss generalizing i f with
  | nil => rfl
  | cons s rest ih =>
    refine bind_eq_map (each s (by simp) false (l.index i) depth f) fun _ => ?_
    exact bind_eq_map (ih (fun s mem => each s (by simp [mem])) (i + 1) _) fun _ => rfl

theorem resolveProperties_pruned {ps : List (String × Schema)}
    (each : ∀ name s, (name, s) ∈ ps → PrunesTo options s) (l : Location) (depth : Nat)
    (f : Findings) :
    resolveProperties options l depth (ps.map fun p => (p.1, p.2.pruned true)) f =
      (resolveProperties options l depth ps f).map
        (Prod.map (List.map fun p => (p.1, p.2.pruned true)) id) := by
  induction ps generalizing f with
  | nil => rfl
  | cons p rest ih =>
    obtain ⟨name, s⟩ := p
    refine bind_eq_map (each name s (by simp) true (l.key name) depth f) fun _ => ?_
    exact bind_eq_map (ih (fun name s mem => each name s (by simp [mem])) _) fun _ => rfl

/-- A shape only looks at slots that the type uses. -/
theorem shapeOf_pruned (isProperty : Bool) (s : Schema) (items : Option Typed)
    (prefixItems oneOf : List Typed) :
    shapeOf (s.pruned isProperty) (items.map (pruned false)) (prefixItems.map (pruned false))
      (oneOf.map (pruned false)) = shapeOf s items prefixItems oneOf := by
  have descriptors : ∀ ts : List Typed,
      (ts.map (pruned false)).map (·.descriptor) = ts.map (·.descriptor) := fun ts => by simp
  have descriptor : (items.map (pruned false)).map (·.descriptor) = items.map (·.descriptor) := by
    cases items <;> simp
  have elements (array : s.isArray = true) :
      (s.pruned isProperty).prefixItems.isSome = s.prefixItems.isSome := by
    rw [Schema.pruned_eq, array]
    cases s.prefixItems <;> rfl
  have alternatives (object : s.isObject = true) :
      (s.pruned isProperty).oneOf.isSome = s.oneOf.isSome := by
    rw [Schema.pruned_eq, object]
    cases s.oneOf <;> rfl
  rw [shapeOf, descriptors, descriptors, descriptor, shapeOf, Shape.of, Shape.of,
    Schema.pruned_type]
  cases htype : s.type with
  | choice names => rfl
  | name n =>
    by_cases array : n = "array"
    · subst array
      rw [elements (by rw [Schema.isArray, htype]; rfl)]
      cases items <;> rfl
    · by_cases object : n = "object"
      · subst object
        rw [alternatives (by rw [Schema.isObject, htype]; rfl)]
        cases items <;> rfl
      · simp [array]

theorem describe_pruned (isProperty : Bool) (l : Location) (s : Schema) (items : Option Typed)
    (prefixItems oneOf : List Typed) :
    describe options l (s.pruned isProperty) (items.map (pruned false))
      (prefixItems.map (pruned false)) (oneOf.map (pruned false)) =
    describe options l s items prefixItems oneOf := by
  have shape := shapeOf_pruned isProperty s items prefixItems oneOf
  rw [shapeOf, shapeOf] at shape
  rw [describe, describe, shape, Schema.pruned_targetType]

theorem register_pruned (isProperty : Bool) (s : Schema) (descriptor : String) (isVariant : Bool)
    (f : Findings) :
    register options (s.pruned isProperty) descriptor isVariant f =
      register options s descriptor isVariant f := by
  rw [register, register, Schema.pruned_isString, Schema.pruned_eq]
  cases s.isString <;> cases s.enum <;> rfl

/-- **What is left of a node resolves to the pruned form of the node**, with the same findings or
the same error. -/
theorem resolveNode_pruned (s : Schema) : PrunesTo options s := by
  induction s using Schema.induction with
  | step s ih =>
    intro isProperty l depth f
    have used : ∀ c, (∃ b, s.UsedChild b c) → PrunesTo options c :=
      fun c ⟨b, child⟩ => ih b c child.child
    rw [resolveNode_eq, resolveNode_eq, Schema.pruned_usedItems, Schema.pruned_usedPrefixItems,
      Schema.pruned_usedOneOf, Schema.pruned_properties]
    split
    · rfl
    refine bind_eq_map (resolveItem_pruned (fun c hc => used c ⟨.items, hc⟩) _ _ _) fun _ => ?_
    refine bind_eq_map (resolveList_pruned
      (fun c hc => used c (Schema.exists_usedChild_of_mem_prefixItems hc)) _ _ _ _) fun _ => ?_
    refine bind_eq_map (resolveList_pruned
      (fun c hc => used c (Schema.exists_usedChild_of_mem_oneOf hc)) _ _ _ _) fun _ => ?_
    simp only [Prod.map_fst, Prod.map_snd, id_eq, describe_pruned, register_pruned]
    refine bind_eq_map (p := id) (by rw [Except.map_id]; rfl) fun _ => ?_
    refine bind_eq_map (resolveProperties_pruned
      (fun name c hc => used c ⟨.property name, hc⟩) _ _ _) fun _ => ?_
    exact congrArg (fun t => Except.ok (t, _)) (pruned_eq isProperty ⟨s, _, _, _, _, _⟩).symm

end Typed

/-- What is left of a document resolves to what is left of its resolved tree. -/
theorem Schema.resolve_pruned (options : Options) (isProperty : Bool) (root : Schema) :
    (root.pruned isProperty).resolve options =
      (root.resolve options).map fun r => ⟨r.root.pruned isProperty, r.findings⟩ := by
  rw [resolve, resolve, Typed.resolveNode_pruned]
  cases Typed.resolveNode options .root 0 root {} <;> rfl

/-! ### Pruning makes no difference to the search for definitions -/

/-- All default values below a node, and its own, have expressions. -/
def Typed.IsExpressible (t : Typed) : Prop :=
  ∀ bs u, Walk Child t bs u → ∀ v, u.schema.default = some v → ∃ literal, v.toLiteral = .ok literal

theorem Typed.IsExpressible.child {t c : Typed} {b : Branch} (h : t.IsExpressible)
    (child : t.Child b c) : c.IsExpressible := fun bs u walk => h (b :: bs) u (.down child walk)

namespace Definition

/-- What a visit finds in a pruned node: the same definitions, and the default value only at a
property. -/
def PrunesTo (t : Typed) : Prop :=
  ∀ isProperty l, visit l (t.pruned isProperty) = (visit l t).map fun v =>
    { v with default := if isProperty then v.default else none }

theorem visitList_pruned {ts : List Typed} (each : ∀ t ∈ ts, PrunesTo t) (l : Location) (i : Nat) :
    visitList l i (ts.map (Typed.pruned false)) = visitList l i ts := by
  induction ts generalizing i with
  | nil => rfl
  | cons t rest ih =>
    rw [List.map_cons, visitList, visitList, each t (by simp) false,
      ih (fun t mem => each t (by simp [mem]))]
    cases visit (l.index i) t <;> rfl

theorem visitProperties_pruned {ps : List (String × Typed)}
    (each : ∀ name t, (name, t) ∈ ps → PrunesTo t) (l : Location) :
    visitProperties l (ps.map fun p => (p.1, p.2.pruned true)) = visitProperties l ps := by
  induction ps with
  | nil => rfl
  | cons p rest ih =>
    obtain ⟨name, t⟩ := p
    have own : visit (l.key name) (t.pruned true) = visit (l.key name) t := by
      rw [each name t (by simp) true]
      cases visit (l.key name) t <;> rfl
    rw [List.map_cons, visitProperties, visitProperties, own, Typed.pruned_descriptor,
      ih (fun name t mem => each name t (by simp [mem]))]

/-- An empty list of declared fields declares as much as none. -/
theorem declared_pruned (isProperty : Bool) {t : Typed} (object : t.schema.isObject = true) :
    (t.pruned isProperty).declared = t.declared := by
  rw [Typed.declared, Typed.declared, Typed.pruned_eq, Schema.pruned_eq, object, if_pos rfl]
  cases t.schema.declaredFields with
  | none => rfl
  | some names => cases names <;> rfl

theorem fromChildren_pruned {t : Typed} (each : ∀ b c, t.Child b c → PrunesTo c)
    (isProperty : Bool) (l : Location) :
    fromChildren l (t.pruned isProperty) = fromChildren l t := by
  have eachOf : ∀ (branch : Nat → Branch) {ts : List Typed},
      (∀ i c, ts[i]? = some c → t.Child (branch i) c) → ∀ c ∈ ts, PrunesTo c := by
    intro branch ts child c mem
    obtain ⟨i, hi⟩ := List.mem_iff_getElem?.1 mem
    exact each _ c (child i c hi)
  rw [fromChildren, fromChildren]
  have schema : (t.pruned isProperty).schema = t.schema.pruned isProperty := by
    rw [Typed.pruned_eq]
  rw [schema, Schema.pruned_isObject, Schema.pruned_isArray]
  split
  · rename_i object
    rw [declared_pruned isProperty object, Typed.pruned_eq]
    simp only
    rw [visitList_pruned (eachOf .alternative fun i c hc => hc),
      visitProperties_pruned fun name c mem => each (.property name) c mem]
  · split
    · rw [Typed.pruned_eq]
      simp only
      cases hitems : t.items with
      | none => exact visitList_pruned (eachOf .prefixItem fun i c hc => hc) _ _
      | some c =>
        simp only [Option.map_some]
        rw [each .items c hitems false]
        cases visit (l.key "items") c <;> rfl
    · rfl

/-- **A search finds in a pruned node what it finds in the node**, or fails alike. -/
theorem visit_pruned {t : Typed} (expressible : t.IsExpressible) : PrunesTo t := by
  induction t using Typed.induction with
  | step t ih =>
    intro isProperty l
    obtain ⟨literal, own⟩ : ∃ literal, defaultLiteral l t.schema.default = .ok literal :=
      ⟨_, defaultLiteral_eq_ok.2 ⟨expressible [] t (.here t), rfl⟩⟩
    have pruned : defaultLiteral l (t.pruned isProperty).schema.default =
        .ok (if isProperty then literal else none) := by
      rw [Typed.pruned_eq, Schema.pruned_eq]
      cases isProperty with
      | true => exact own
      | false => rfl
    rw [visit_eq, visit_eq, own, pruned,
      fromChildren_pruned fun b c child => ih b c child (expressible.child child)]
    cases fromChildren l t <;> rfl

end Definition

theorem Typed.definitions_pruned {t : Typed} (expressible : t.IsExpressible) (isProperty : Bool) :
    (t.pruned isProperty).definitions = t.definitions := by
  rw [definitions, definitions, Definition.visit_pruned expressible]
  cases Definition.visit .root t <;> rfl

/-! ### Trees of which the same is left -/

namespace Schema

/-- All numbers in the default values of a tree are finite. -/
def HasFiniteDefaults (root : Schema) : Prop :=
  ∀ bs n v, Walk Child root bs n → n.default = some v → v.HasFiniteNumbers

theorem HasFiniteDefaults.isExpressible {root : Schema} {options : Options} {r : Resolution}
    (h : root.HasFiniteDefaults) (resolved : root.resolve options = .ok r) :
    r.root.IsExpressible := by
  intro bs u walk v hv
  obtain ⟨n, walk', form⟩ := (Resolution.isFormOf resolved).walk walk
  rw [form.schema_eq] at hv
  exact (h bs n v (walk'.mono UsedChild.child) hv).exists_toLiteral_eq_ok

/-- **Trees of which the same is left compile alike.** -/
theorem compile_eq_of_pruned_eq {root other : Schema} (finite : root.HasFiniteDefaults)
    (finite' : other.HasFiniteDefaults) (same : root.pruned false = other.pruned false)
    (options : Options) : root.compile options = other.compile options := by
  have resolutions := other.resolve_pruned options false
  rw [← same, root.resolve_pruned options false] at resolutions
  rw [compile, compile]
  cases resolved : root.resolve options with
  | error e =>
    rw [resolved] at resolutions
    cases resolved' : other.resolve options with
    | error e' =>
      rw [resolved'] at resolutions
      cases resolutions
      rfl
    | ok r' =>
      rw [resolved'] at resolutions
      cases resolutions
  | ok r =>
    rw [resolved] at resolutions
    obtain ⟨r', resolved', left⟩ := map_eq_ok.1 resolutions.symm
    obtain ⟨roots, findings⟩ := Resolution.mk.inj left
    have definitions : r.root.definitions = r'.root.definitions := by
      rw [← Typed.definitions_pruned (finite.isExpressible resolved) false, ← roots,
        Typed.definitions_pruned (finite'.isExpressible resolved') false]
    rw [resolved']
    show (r.root.definitions >>= _) = (r'.root.definitions >>= _)
    rw [definitions, findings]

/-! ### A tree and what is left of it -/

/-- A tree that is decoded from a value with finite numbers has finite defaults. -/
theorem hasFiniteDefaults_of_decoded {v : Json} {root : Schema} (finite : v.HasFiniteNumbers)
    (decoded : ofJson v = .ok root) : root.HasFiniteDefaults := by
  intro bs n dflt walk hdflt
  obtain ⟨k, w, -, inside, hw⟩ := exists_inside_of_walk decoded walk
  exact finite.inside (inside.trans (.deeper (part_of_default hw hdflt) (.here dflt)))

theorem prunedNodes_pruned (nodes : Option (List Schema))
    (each : ∀ ss, nodes = some ss → ∀ c ∈ ss, (c.pruned false).pruned false = c.pruned false) :
    (nodes.map (List.map (pruned false))).map (List.map (pruned false)) =
      nodes.map (List.map (pruned false)) := by
  cases nodes with
  | none => rfl
  | some ss =>
    rw [Option.map_some, Option.map_some, List.map_map]
    exact congrArg some (List.map_congr_left (each ss rfl))

/-- Nothing more is taken away from what is left. -/
theorem pruned_pruned (isProperty : Bool) (s : Schema) :
    (s.pruned isProperty).pruned isProperty = s.pruned isProperty := by
  induction s using Schema.induction generalizing isProperty with
  | step s ih =>
    have items : (s.items.map (pruned false)).map (pruned false) = s.items.map (pruned false) := by
      cases hitems : s.items with
      | none => rfl
      | some c => exact congrArg some (ih .items c hitems false)
    have prefixItems := prunedNodes_pruned s.prefixItems fun ss hs c mem =>
      have ⟨i, hi⟩ := List.mem_iff_getElem?.1 mem
      ih (.prefixItem i) c ⟨ss, hs, hi⟩ false
    have oneOf := prunedNodes_pruned s.oneOf fun ss hs c mem =>
      have ⟨i, hi⟩ := List.mem_iff_getElem?.1 mem
      ih (.alternative i) c ⟨ss, hs, hi⟩ false
    have properties : ∀ p ∈ s.properties, (p.1, (p.2.pruned true).pruned true) =
        (p.1, p.2.pruned true) := fun p mem => by rw [ih (.property p.1) p.2 mem true]
    rw [pruned_eq isProperty (s.pruned isProperty), pruned_isArray, pruned_isObject,
      pruned_isString, pruned_eq isProperty s]
    simp only [List.map_map, Function.comp_def]
    rw [List.map_congr_left properties]
    cases s.isArray <;> cases s.isObject <;> cases s.isString <;> cases isProperty <;>
      simp [items, prefixItems, oneOf]

/-- A branch of what is left leads to what is left of a child. -/
theorem exists_child_of_pruned {isProperty : Bool} {s c : Schema} {b : Branch}
    (child : (s.pruned isProperty).Child b c) :
    ∃ n, s.Child b n ∧ ∃ isProperty, n.pruned isProperty = c := by
  rw [pruned_eq] at child
  cases b with
  | items =>
    have some := Option.ite_none_right_eq_some.1 child
    obtain ⟨n, hn, same⟩ := Option.map_eq_some_iff.1 some.2
    exact ⟨n, hn, false, same⟩
  | property name =>
    obtain ⟨p, mem, same⟩ := List.mem_map.1 child
    cases same
    exact ⟨p.2, mem, true, rfl⟩
  | _ =>
    obtain ⟨nodes, hnodes, hc⟩ := child
    have some := Option.ite_none_right_eq_some.1 hnodes
    obtain ⟨ss, hs, rfl⟩ := Option.map_eq_some_iff.1 some.2
    obtain ⟨n, hn, same⟩ := Option.map_eq_some_iff.1 (List.getElem?_map .. ▸ hc)
    exact ⟨n, ⟨ss, hs, hn⟩, false, same⟩

theorem HasFiniteDefaults.pruned {root : Schema} (finite : root.HasFiniteDefaults)
    (isProperty : Bool) : (root.pruned isProperty).HasFiniteDefaults := by
  intro bs c v walk hv
  obtain ⟨n, walk', isProperty, rfl⟩ : ∃ n, Walk Child root bs n ∧
      ∃ isProperty, Schema.pruned isProperty n = c := by
    refine Walk.simulate (R := fun c n => ∃ isProperty, Schema.pruned isProperty n = c) ?_ walk
      ⟨isProperty, rfl⟩
    rintro _ _ _ n ⟨isProperty, rfl⟩ child
    exact exists_child_of_pruned child
  rw [pruned_eq] at hv
  cases isProperty with
  | true => exact finite bs n v walk' hv
  | false => cases hv

end Schema

/-- **A tree compiles as what is left of it after pruning**: to the same model, or with the same
error at the same place. -/
theorem pruning_changes_nothing (root : Schema) (finite : root.HasFiniteDefaults)
    (options : Options) : (root.pruned false).compile options = root.compile options :=
  Schema.compile_eq_of_pruned_eq (finite.pruned false) finite (root.pruned_pruned false) options

/-- A text with items of an unknown type and with declared fields, none of which a text uses, and
with a default value that only a property would use. -/
def strayText : Schema :=
  { Schema.ofTypeName "string" with
    title := some "Mode"
    enum := some ["on", "off"]
    default := some (.number (.int 1))
    items := some (Schema.ofTypeName "unheard-of")
    declaredFields := some ["x"] }

/-- The document of the text. -/
def strayTextDocument : Json :=
  .object [("type", .string "string"), ("title", .string "Mode"),
    ("enum", .array [.string "on", .string "off"]), ("default", .number (.int 1)),
    ("items", .object [("type", .string "unheard-of")]), ("declared_fields", .array [.string "x"])]

theorem strayText_compiles :
    ∃ m, strayText.HasFiniteDefaults ∧ (strayText.pruned false).items.isNone ∧
      (strayText.pruned false).default.isNone ∧ m.hasEnum = true ∧
      strayText.compile {} = .ok m ∧ (strayText.pruned false).compile {} = .ok m := by
  obtain ⟨m, compiled, enumerated⟩ : ∃ m, strayText.compile {} = .ok m ∧ m.hasEnum = true :=
    ⟨_, rfl, rfl⟩
  have one : (Json.number (.int 1)).IsDocument := Json.isDocument_number rfl
  have modes : (Json.array [.string "on", .string "off"]).IsDocument :=
    Json.isDocument_array (by simp [Json.isDocument_string])
  have fields : (Json.array [.string "x"]).IsDocument :=
    Json.isDocument_array (by simp [Json.isDocument_string])
  have items : (Json.object [("type", .string "unheard-of")]).IsDocument :=
    Json.isDocument_object (by decide) (by simp [Json.isDocument_string])
  have document : strayTextDocument.IsDocument :=
    Json.isDocument_object (by decide)
      (by simp [Json.isDocument_string, one, modes, items, fields])
  have finite : strayText.HasFiniteDefaults :=
    Schema.hasFiniteDefaults_of_decoded document.finite (v := strayTextDocument) rfl
  refine ⟨m, finite, rfl, rfl, enumerated, compiled, ?_⟩
  rw [pruning_changes_nothing strayText finite {}, compiled]

end SchemaModel
