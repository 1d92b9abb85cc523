import SchemaModel.Proofs.Correspondence
import SchemaModel.Proofs.Directives

/-!
# The order of properties

Two trees that differ only in the order of the properties of their nodes resolve alike: the same
branches lead to nodes with the same descriptors.  The search for definitions looks properties up by
the names that a node declares, so it finds the same definitions in the same order.  What the
resolver gathers it may gather in another order, which shows only in the order of the enumerations
and in which values stand under a descriptor that is registered with different ones.

* `Schema.Reordered` — trees that are equal up to the order of properties;
* `Schema.Reordered.resolveNode` — one resolves where the other does, to the same descriptor;
* `Typed.Alike` — typed forms of such trees; `Typed.Alike.child` — the same branches lead to them;
* `Typed.Alike.found_eq` — the search for definitions finds the same in both;
* `property_order_is_immaterial` — what the order of properties does not change in a model.
-/

namespace SchemaModel

open Outcome

/-! ### Trees that are equal up to the order of properties -/

namespace Schema

/-- The node without the nodes below it. -/
def withoutChildren (s : Schema) : Schema :=
  { s with items := none, prefixItems := none, oneOf := none, properties := [] }

/-- Two trees are equal up to the order of the properties at any nodes. -/
inductive Reordered : Schema → Schema → Prop
  | node {s s' : Schema} (ps : List (String × Schema))
      (own : s.withoutChildren = s'.withoutChildren)
      (items : Option.Rel Reordered s.items s'.items)
      (prefixItems : Option.Rel (List.Forall₂ Reordered) s.prefixItems s'.prefixItems)
      (oneOf : Option.Rel (List.Forall₂ Reordered) s.oneOf s'.oneOf)
      (names : s.properties.map Prod.fst = ps.map Prod.fst)
      (values : List.Forall₂ Reordered (s.properties.map Prod.snd) (ps.map Prod.snd))
      (order : ps.Perm s'.properties) : Reordered s s'

namespace Reordered

variable {s s' : Schema}

theorem type_eq (h : s.Reordered s') : s'.type = s.type := by
  obtain ⟨-, own⟩ := h
  exact (congrArg Schema.type own).symm

theorem targetType_eq (h : s.Reordered s') : s'.targetType = s.targetType := by
  obtain ⟨-, own⟩ := h
  exact (congrArg Schema.targetType own).symm

theorem enum_eq (h : s.Reordered s') : s'.enum = s.enum := by
  obtain ⟨-, own⟩ := h
  exact (congrArg Schema.enum own).symm

theorem default_eq (h : s.Reordered s') : s'.default = s.default := by
  obtain ⟨-, own⟩ := h
  exact (congrArg Schema.default own).symm

theorem declaredFields_eq (h : s.Reordered s') : s'.declaredFields = s.declaredFields := by
  obtain ⟨-, own⟩ := h
  exact (congrArg Schema.declaredFields own).symm

theorem isArray_eq (h : s.Reordered s') : s'.isArray = s.isArray := by
  rw [isArray, isArray, h.type_eq]

theorem isObject_eq (h : s.Reordered s') : s'.isObject = s.isObject := by
  rw [isObject, isObject, h.type_eq]

theorem isString_eq (h : s.Reordered s') : s'.isString = s.isString := by
  rw [isString, isString, h.type_eq]

theorem usedItems (h : s.Reordered s') : Option.Rel Reordered s.usedItems s'.usedItems := by
  obtain ⟨-, -, items⟩ := id h
  rw [Schema.usedItems, Schema.usedItems, h.isArray_eq]
  cases s.isArray with
  | true => exact items
  | false => exact .none

theorem used_nodes {nodes nodes' : Option (List Schema)} (used : Bool)
    (related : Option.Rel (List.Forall₂ Reordered) nodes nodes') :
    List.Forall₂ Reordered (if used then nodes.getD [] else [])
      (if used then nodes'.getD [] else []) := by
  cases used with
  | false => exact .nil
  | true =>
    cases related with
    | none => exact .nil
    | some related => exact related

theorem usedPrefixItems (h : s.Reordered s') :
    List.Forall₂ Reordered s.usedPrefixItems s'.usedPrefixItems := by
  obtain ⟨-, -, -, prefixItems⟩ := id h
  rw [Schema.usedPrefixItems, Schema.usedPrefixItems, h.isArray_eq]
  exact used_nodes s.isArray prefixItems

theorem usedOneOf (h : s.Reordered s') : List.Forall₂ Reordered s.usedOneOf s'.usedOneOf := by
  obtain ⟨-, -, -, -, oneOf⟩ := id h
  rw [Schema.usedOneOf, Schema.usedOneOf, h.isObject_eq]
  exact used_nodes s.isObject oneOf

theorem mem_properties (h : s.Reordered s') {name : String} {c : Schema}
    (mem : (name, c) ∈ s.properties) : ∃ c', (name, c') ∈ s'.properties ∧ c.Reordered c' := by
  obtain ⟨ps, -, -, -, -, names, values, order⟩ := h
  obtain ⟨c', mem', related⟩ := NamedForall₂.mem_left (namedForall₂_iff.2 ⟨names, values⟩) mem
  exact ⟨c', order.subset mem', related⟩

theorem names_perm (h : s.Reordered s') :
    (s.properties.map Prod.fst).Perm (s'.properties.map Prod.fst) := by
  obtain ⟨ps, -, -, -, -, names, -, order⟩ := h
  rw [names]
  exact order.map Prod.fst

/-- **The same branches lead through both trees.** -/
theorem usedChild (h : s.Reordered s') {b : Branch} {c : Schema} (child : s.UsedChild b c) :
    ∃ c', s'.UsedChild b c' ∧ c.Reordered c' := by
  cases b with
  | items => exact Rel.exists_of_eq_some h.usedItems child
  | prefixItem i => exact Forall₂.getElem?_left h.usedPrefixItems child
  | alternative i => exact Forall₂.getElem?_left h.usedOneOf child
  | property name => exact h.mem_properties child

theorem symm (h : s.Reordered s') : s'.Reordered s := by
  induction s using Schema.induction generalizing s' with
  | step s ih =>
    have swapped : ∀ {ss ss' : List Schema} (branch : Nat → Branch),
        (∀ i c, ss[i]? = some c → s.Child (branch i) c) → List.Forall₂ Reordered ss ss' →
          List.Forall₂ Reordered ss' ss := by
      intro ss ss' branch child related
      refine Forall₂.imp_of_mem_right (List.Forall₂.flip related) fun c' c mem => ?_
      obtain ⟨i, hi⟩ := List.mem_iff_getElem?.1 mem
      exact ih _ c (child i c hi)
    obtain ⟨ps, own, items, prefixItems, oneOf, names, values, order⟩ := h
    have back : NamedForall₂ Reordered ps s.properties := by
      have flipped := (namedForall₂_iff.2 ⟨names, values⟩).flip
      exact Forall₂.imp_of_mem_right flipped fun p q mem related =>
        ⟨related.1, ih (.property q.1) q.2 mem related.2⟩
    obtain ⟨qs, related, order'⟩ := List.perm_comp_forall₂ order.symm back
    obtain ⟨names', values'⟩ := namedForall₂_iff.1 related
    refine .node qs own.symm ?_ ?_ ?_ names' values' order'
    · exact Rel.swap items fun c c' hc => ih .items c hc
    · exact Rel.swap prefixItems fun ss ss' hs =>
        swapped .prefixItem fun i c hi => ⟨ss, hs, hi⟩
    · exact Rel.swap oneOf fun ss ss' hs => swapped .alternative fun i c hi => ⟨ss, hs, hi⟩

end Reordered

/-- No node that used children lead to names two properties alike; a document that repeats a name
keeps one of them. -/
def HasDistinctNames (root : Schema) : Prop :=
  ∀ bs n, Walk UsedChild root bs n → (n.properties.map Prod.fst).Nodup

theorem HasDistinctNames.child {s c : Schema} {b : Branch} (h : s.HasDistinctNames)
    (child : s.UsedChild b c) : c.HasDistinctNames :=
  fun bs n walk => h (b :: bs) n (.down child walk)

theorem Reordered.distinctNames {s s' : Schema} (h : s.Reordered s')
    (distinct : s.HasDistinctNames) : s'.HasDistinctNames := by
  intro bs n' walk
  obtain ⟨n, walk', related⟩ : ∃ n, Walk UsedChild s bs n ∧ n'.Reordered n := by
    refine Walk.simulate ?_ walk h.symm
    intro _ _ _ _ related child
    exact related.usedChild child
  exact related.names_perm.nodup_iff.2 (distinct bs n walk')

end Schema

/-! ### One tree resolves where the other does -/

namespace Typed

variable (options : Options)

/-- A node resolves at a depth, wherever that is, and gets a descriptor. -/
def ResolvesTo (depth : Nat) (s : Schema) (d : String) : Prop :=
  ∀ l f, ∃ t f', resolveNode options l depth s f = .ok (t, f') ∧ t.descriptor = d

/-- Where a node resolves, a reordered one does too, to the same descriptor. -/
def IsReorderable (s : Schema) : Prop :=
  ∀ {s'}, s.Reordered s' → ∀ {l depth f t f'}, resolveNode options l depth s f = .ok (t, f') →
    ResolvesTo options depth s' t.descriptor

variable {options} {depth : Nat}

theorem exists_resolveItem {s : Option Schema} {d : Option String}
    (each : Option.Rel (ResolvesTo options depth) s d) (l : Location) (f : Findings) :
    ∃ t f', resolveItem options l depth s f = .ok (t, f') ∧ t.map (·.descriptor) = d := by
  cases each with
  | none => exact ⟨none, f, rfl, rfl⟩
  | some own =>
    obtain ⟨t, f', ht, rfl⟩ := own l f
    exact ⟨some t, f', resolveItem_eq_ok.2 ⟨t, rfl, ht⟩, rfl⟩

theorem exists_resolveList {ss : List Schema} {ds : List String}
    (each : List.Forall₂ (ResolvesTo options depth) ss ds) (l : Location) (i : Nat)
    (f : Findings) :
    ∃ ts f', resolveList options l depth i ss f = .ok (ts, f') ∧ ts.map (·.descriptor) = ds := by
  induction each generalizing i f with
  | nil => exact ⟨[], f, rfl, rfl⟩
  | cons own _ ih =>
    obtain ⟨t, f₁, ht, rfl⟩ := own (l.index i) f
    obtain ⟨ts, f₂, hts, rfl⟩ := ih (i + 1) f₁
    exact ⟨t :: ts, f₂, resolveList_cons_eq_ok.2 ⟨t, ts, f₁, rfl, ht, hts⟩, rfl⟩

theorem exists_resolveProperties {ps : List (String × Schema)}
    (each : ∀ name s, (name, s) ∈ ps → ∃ d, ResolvesTo options depth s d) (l : Location)
    (f : Findings) : ∃ ts f', resolveProperties options l depth ps f = .ok (ts, f') := by
  induction ps generalizing f with
  | nil => exact ⟨[], f, rfl⟩
  | cons p rest ih =>
    obtain ⟨name, s⟩ := p
    obtain ⟨d, own⟩ := each name s List.mem_cons_self
    obtain ⟨t, f₁, ht, -⟩ := own (l.key name) f
    obtain ⟨ts, f₂, hts⟩ := ih (fun name s mem => each name s (List.mem_cons_of_mem _ mem)) f₁
    exact ⟨(name, t) :: ts, f₂, resolveProperties_cons_eq_ok.2 ⟨t, ts, f₁, rfl, ht, hts⟩⟩

theorem resolveItem_reordered {s s' : Option Schema} (related : Option.Rel Schema.Reordered s s')
    (each : ∀ c, s = some c → IsReorderable options c) {l : Location} {f f' : Findings}
    {t : Option Typed} (h : resolveItem options l depth s f = .ok (t, f')) :
    Option.Rel (ResolvesTo options depth) s' (t.map (·.descriptor)) := by
  cases related with
  | none =>
    cases h
    exact .none
  | some related =>
    obtain ⟨c, rfl, hc⟩ := resolveItem_eq_ok.1 h
    exact .some (each _ rfl related hc)

theorem resolveList_reordered {ss ss' : List Schema}
    (related : List.Forall₂ Schema.Reordered ss ss') (each : ∀ s ∈ ss, IsReorderable options s)
    {l : Location} {i : Nat} {f f' : Findings} {ts : List Typed}
    (h : resolveList options l depth i ss f = .ok (ts, f')) :
    List.Forall₂ (ResolvesTo options depth) ss' (ts.map (·.descriptor)) := by
  induction related generalizing i f ts with
  | nil =>
    cases h
    exact .nil
  | cons related _ ih =>
    obtain ⟨t, rest, f₁, rfl, ht, hrest⟩ := resolveList_cons_eq_ok.1 h
    exact .cons (each _ List.mem_cons_self related ht)
      (ih (fun s mem => each s (List.mem_cons_of_mem _ mem)) hrest)

/-- A shape depends on nothing but the node itself, the slots that it fills and the descriptors of
its children. -/
theorem shapeOf_reordered {s s' : Schema} (related : s.Reordered s') {items items' : Option Typed}
    {prefixItems prefixItems' oneOf oneOf' : List Typed}
    (hitems : items'.map (·.descriptor) = items.map (·.descriptor))
    (hprefixItems : prefixItems'.map (·.descriptor) = prefixItems.map (·.descriptor))
    (honeOf : oneOf'.map (·.descriptor) = oneOf.map (·.descriptor)) :
    shapeOf s' items' prefixItems' oneOf' = shapeOf s items prefixItems oneOf := by
  have filled : ∀ {x x' : Option (List Schema)},
      Option.Rel (List.Forall₂ Schema.Reordered) x x' → x'.isSome = x.isSome := by
    rintro _ _ (_ | _) <;> rfl
  obtain ⟨-, -, -, elements, alternatives⟩ := id related
  rw [shapeOf, shapeOf, hitems, hprefixItems, honeOf, Shape.of, Shape.of, related.type_eq,
    filled elements, filled alternatives]

theorem describe_reordered {s s' : Schema} (related : s.Reordered s') {l l' : Location}
    {items items' : Option Typed} {prefixItems prefixItems' oneOf oneOf' : List Typed}
    (hitems : items'.map (·.descriptor) = items.map (·.descriptor))
    (hprefixItems : prefixItems'.map (·.descriptor) = prefixItems.map (·.descriptor))
    (honeOf : oneOf'.map (·.descriptor) = oneOf.map (·.descriptor)) {d : String} {isVariant : Bool}
    (h : describe options l s items prefixItems oneOf = .ok (d, isVariant)) :
    describe options l' s' items' prefixItems' oneOf' = .ok (d, isVariant) := by
  have own := describe_eq_ok.1 h
  refine describe_eq_ok.2 ?_
  rw [related.targetType_eq, shapeOf_reordered related hitems hprefixItems honeOf]
  exact own

/-- **Where a tree resolves, a reordered one does too**, and its root gets the same descriptor. -/
theorem resolveNode_reordered (s : Schema) : IsReorderable options s := by
  induction s using Schema.induction with
  | step s ih =>
    intro s' related l depth f t f' h l' g
    obtain ⟨rfl, isVariant, f₁, f₂, f₃, f₄, parts, -⟩ := resolveNode_eq_ok.1 h
    have used : ∀ c, (∃ b, t.schema.UsedChild b c) → IsReorderable options c :=
      fun c ⟨b, child⟩ => ih b c child.child
    have properties : ∀ name c', (name, c') ∈ s'.properties →
        ∃ d, ResolvesTo options (depth + 1) c' d := by
      intro name c' mem
      obtain ⟨c, mem', back⟩ := related.symm.mem_properties mem
      obtain ⟨u, g₁, g₂, hu⟩ := resolves_of_mem_properties parts.properties mem'
      exact ⟨u.descriptor, ih (.property name) c mem' back.symm hu⟩
    obtain ⟨items, g₁, hitems, sameItems⟩ := exists_resolveItem
      (resolveItem_reordered related.usedItems (fun c hc => used c ⟨.items, hc⟩) parts.items)
      (l'.key "items") g
    obtain ⟨prefixItems, g₂, hprefixItems, samePrefixItems⟩ := exists_resolveList
      (resolveList_reordered related.usedPrefixItems
        (fun c hc => used c (Schema.exists_usedChild_of_mem_prefixItems hc)) parts.prefixItems)
      (l'.key "prefixItems") 0 g₁
    obtain ⟨oneOf, g₃, honeOf, sameOneOf⟩ := exists_resolveList
      (resolveList_reordered related.usedOneOf
        (fun c hc => used c (Schema.exists_usedChild_of_mem_oneOf hc)) parts.oneOf)
      (l'.key "oneOf") 0 g₂
    have described : describe options l' s' items prefixItems oneOf =
        .ok (t.descriptor, isVariant) :=
      describe_reordered related sameItems samePrefixItems sameOneOf parts.descriptor
    obtain ⟨ps, g₄, hps⟩ := exists_resolveProperties properties (l'.key "properties")
      (register options s' t.descriptor isVariant g₃)
    refine ⟨⟨s', t.descriptor, items, prefixItems, oneOf, ps⟩, _, resolveNode_eq_ok.2 ⟨rfl,
      isVariant, g₁, g₂, g₃, g₄, ?_, rfl⟩, rfl⟩
    exact ⟨parts.shallow, hitems, hprefixItems, honeOf, described, hps⟩

theorem IsFormOf.unique {t t' : Typed} {s : Schema} (h : t.IsFormOf options s)
    (h' : t'.IsFormOf options s) : t = t' := by
  obtain ⟨r, resolved, rfl⟩ := h.resolve
  obtain ⟨r', resolved', rfl⟩ := h'.resolve
  rw [Except.ok.inj (resolved.symm.trans resolved')]

/-! ### Typed forms of reordered trees -/

/-- Two nodes are typed forms of trees that are equal up to the order of properties. -/
structure Alike (options : Options) (t t' : Typed) : Prop where
  reordered : t.schema.Reordered t'.schema
  distinct : t.schema.HasDistinctNames
  left : t.IsFormOf options t.schema
  right : t'.IsFormOf options t'.schema

namespace Alike

variable {t t' : Typed}

theorem symm (h : t.Alike options t') : t'.Alike options t :=
  ⟨h.reordered.symm, h.reordered.distinctNames h.distinct, h.right, h.left⟩

theorem descriptor_eq (h : t.Alike options t') : t'.descriptor = t.descriptor := by
  obtain ⟨l, depth, f, f', resolved⟩ := h.left
  obtain ⟨u, g, resolved', same⟩ := resolveNode_reordered _ h.reordered resolved l f
  rw [← same, IsFormOf.unique h.right ⟨l, depth, f, g, resolved'⟩]

/-- **The same branches lead through both typed forms.** -/
theorem child (h : t.Alike options t') {b : Branch} {c : Typed} (child : t.Child b c) :
    ∃ c', t'.Child b c' ∧ c.Alike options c' := by
  obtain ⟨n, used, form⟩ := h.left.child child
  obtain ⟨n', used', related⟩ := h.reordered.usedChild used
  obtain ⟨c', child', form'⟩ := h.right.usedChild used'
  obtain rfl := form.schema_eq
  obtain rfl := form'.schema_eq
  exact ⟨c', child', related, h.distinct.child used, form, form'⟩

theorem walk (h : t.Alike options t') {bs : List Branch} {u : Typed}
    (walk : Walk Typed.Child t bs u) : ∃ u', Walk Typed.Child t' bs u' ∧ u.Alike options u' := by
  refine Walk.simulate ?_ walk h
  intro t c b t' related child
  exact related.child child

theorem mem_nodes (h : t.Alike options t') {u : Typed} (mem : u ∈ t.nodes) :
    ∃ u' ∈ t'.nodes, u.Alike options u' := by
  obtain ⟨bs, walk⟩ := Typed.mem_nodes.1 mem
  obtain ⟨u', walk', related⟩ := h.walk walk
  exact ⟨u', Typed.mem_nodes.2 ⟨bs, walk'⟩, related⟩

theorem items (h : t.Alike options t') : Option.Rel (Alike options) t.items t'.items := by
  cases hitems : t.items with
  | some c =>
    obtain ⟨c', hitems', related⟩ := h.child (b := .items) hitems
    rw [show t'.items = some c' from hitems']
    exact .some related
  | none =>
    cases hitems' : t'.items with
    | none => exact .none
    | some c' =>
      obtain ⟨c, hc, -⟩ := h.symm.child (b := .items) hitems'
      cases hitems.symm.trans hc

theorem prefixItems (h : t.Alike options t') :
    List.Forall₂ (Alike options) t.prefixItems t'.prefixItems :=
  forall₂_of_getElem? (fun i _ hc => h.child (b := .prefixItem i) hc) fun i _ hc =>
    have ⟨c, hc, _⟩ := h.symm.child (b := .prefixItem i) hc
    ⟨c, hc⟩

theorem oneOf (h : t.Alike options t') : List.Forall₂ (Alike options) t.oneOf t'.oneOf :=
  forall₂_of_getElem? (fun i _ hc => h.child (b := .alternative i) hc) fun i _ hc =>
    have ⟨c, hc, _⟩ := h.symm.child (b := .alternative i) hc
    ⟨c, hc⟩

theorem names_nodup (h : t.Alike options t') : (t.properties.map Prod.fst).Nodup := by
  have names := congrArg (List.map Prod.fst) (schemas_of_namedForms h.left.forms.properties)
  rw [List.map_map] at names
  rw [show t.properties.map Prod.fst = _ from names]
  exact h.distinct [] _ (.here _)

/-- A name names a property in both, or in neither. -/
theorem lookup (h : t.Alike options t') (name : String) :
    Option.Rel (Alike options) (t.properties.lookup name) (t'.properties.lookup name) := by
  cases hname : t.properties.lookup name with
  | some c =>
    obtain ⟨c', mem, related⟩ := h.child (b := .property name) (mem_of_lookup hname)
    rw [lookup_of_mem h.symm.names_nodup mem]
    exact .some related
  | none =>
    cases hname' : t'.properties.lookup name with
    | none => exact .none
    | some c' =>
      obtain ⟨c, mem, -⟩ := h.symm.child (b := .property name) (mem_of_lookup hname')
      cases hname.symm.trans (lookup_of_mem h.names_nodup mem)

/-- **What directs the search for definitions is the same in both.** -/
theorem correspondence (options : Options) : Correspondence (Alike options) where
  type_eq h := h.reordered.type_eq
  declaredFields_eq h := h.reordered.declaredFields_eq
  default_eq h := h.reordered.default_eq
  items h := h.items
  prefixItems h := h.prefixItems
  oneOf h := h.oneOf
  lookup h := h.lookup

theorem registration?_eq (h : t.Alike options t') : t'.registration? = t.registration? := by
  rw [registration?, registration?, h.descriptor_eq, h.reordered.isString_eq, h.reordered.enum_eq]

theorem isVariant_eq (h : t.Alike options t') : t'.isVariant = t.isVariant := by
  have shape : t'.shape = t.shape := shapeOf_reordered h.reordered
    (Rel.map_eq h.items fun _ _ related => related.descriptor_eq)
    (Forall₂.map_eq h.prefixItems fun _ _ related => related.descriptor_eq)
    (Forall₂.map_eq h.oneOf fun _ _ related => related.descriptor_eq)
  rw [isVariant, isVariant, h.reordered.targetType_eq, shape]

theorem directives_eq (h : t.Alike options t') : t'.directives options = t.directives options := by
  rw [directives, directives, h.isVariant_eq, h.registration?_eq, h.descriptor_eq]

/-! ### The search for definitions -/

theorem ofTyped_eq (h : t.Alike options t') (l : Location) :
    Definition.ofTyped l t' = Definition.ofTyped l t := by
  have fields : Definition.fieldsOf t'.properties t.declared =
      Definition.fieldsOf t.properties t.declared := by
    refine List.filterMap_congr fun name _ => Rel.map_eq (h.lookup name) fun c c' related => ?_
    rw [related.descriptor_eq, (correspondence options).literal?_eq related]
  rw [Definition.ofTyped, Definition.ofTyped, h.descriptor_eq,
    (correspondence options).declared_eq h, fields, (correspondence options).absent_eq h]

/-- **The search for definitions finds the same in both.** -/
theorem found_eq (h : t.Alike options t') (l : Location) : t'.found l = t.found l := by
  have definitions : (t'.emitted.map fun e => Definition.ofTyped (l.along e.1) e.2) =
      t.emitted.map fun e => Definition.ofTyped (l.along e.1) e.2 := by
    refine Forall₂.map_eq ((correspondence options).emitted h) fun e e' related => ?_
    rw [related.1, related.2.ofTyped_eq]
  rw [found, found, definitions, (correspondence options).literal?_eq h]

theorem definitions_eq_ok (h : t.Alike options t') {ds : List Definition}
    (searched : t.definitions = .ok ds) : t'.definitions = .ok ds := by
  obtain ⟨searchable, rfl⟩ := Definition.definitions_eq_ok.1 searched
  exact Definition.definitions_eq_ok.2 ⟨(correspondence options).isSearchable h searchable,
    by rw [h.found_eq]⟩

theorem mem_registrations (h : t.Alike options t') {e : String × List String}
    (mem : e ∈ t.registrations) : e ∈ t'.registrations := by
  obtain ⟨u, mem, registered⟩ := List.mem_filterMap.1 mem
  obtain ⟨u', mem', related⟩ := h.mem_nodes mem
  exact List.mem_filterMap.2 ⟨u', mem', related.registration?_eq.trans registered⟩

theorem any_nodes (h : t.Alike options t') {p : Typed → Bool}
    (same : ∀ u u', Alike options u u' → p u' = p u) : t'.nodes.any p = t.nodes.any p := by
  rw [Bool.eq_iff_iff, List.any_eq_true, List.any_eq_true]
  constructor
  · rintro ⟨u', mem, holds⟩
    obtain ⟨u, mem', related⟩ := h.symm.mem_nodes mem
    exact ⟨u, mem', (same u' u related).trans holds⟩
  · rintro ⟨u, mem, holds⟩
    obtain ⟨u', mem', related⟩ := h.mem_nodes mem
    exact ⟨u', mem', (same u u' related).trans holds⟩

end Alike

end Typed

/-! ### What is gathered -/

namespace Table

variable {α : Type} {es es' : List (String × α)}

theorem get?_ofEntries_eq_some {k : String} {v : α} (h : (ofEntries es).get? k = some v) :
    (k, v) ∈ es := by
  have last : es.reverse.lookup k = some v := by
    rw [← h, ofEntries, get?_putAll]
    exact Option.or_none.symm
  exact List.mem_reverse.1 (mem_of_lookup last)

theorem exists_get?_ofEntries {k : String} {v : α} (mem : (k, v) ∈ es) :
    ∃ w, (ofEntries es).get? k = some w := by
  rw [ofEntries, get?_putAll]
  cases last : es.reverse.lookup k with
  | some w => exact ⟨w, rfl⟩
  | none =>
    have absent := List.lookup_eq_none_iff.1 last (k, v) (List.mem_reverse.2 mem)
    simp at absent

/-- Entries that are put in another order leave the same values, unless a key is put with different
ones. -/
theorem get?_ofEntries_eq (same : ∀ e, e ∈ es' ↔ e ∈ es)
    (agree : ∀ k v w, (k, v) ∈ es → (k, w) ∈ es → v = w) (k : String) :
    (ofEntries es').get? k = (ofEntries es).get? k := by
  cases hk : (ofEntries es).get? k with
  | none =>
    cases hk' : (ofEntries es').get? k with
    | none => rfl
    | some v =>
      obtain ⟨w, hw⟩ := exists_get?_ofEntries ((same _).1 (get?_ofEntries_eq_some hk'))
      cases hk.symm.trans hw
  | some v =>
    have mem := get?_ofEntries_eq_some hk
    obtain ⟨w, hw⟩ := exists_get?_ofEntries ((same _).2 mem)
    rw [hw, agree k v w mem ((same _).1 (get?_ofEntries_eq_some hw))]

end Table

namespace Resolution

variable {options : Options} {root root' : Schema} {r r' : Resolution}

theorem includes_ascending (resolved : root.resolve options = .ok r) :
    r.findings.includes.Pairwise (· < ·) := by
  rw [findings_eq resolved, Findings.includes_foldl]
  exact insertAll_ascending List.Pairwise.nil _

theorem includes_subset (resolved : root.resolve options = .ok r)
    (resolved' : root'.resolve options = .ok r') (alike : r.root.Alike options r'.root) :
    r.findings.includes ⊆ r'.findings.includes := by
  intro s mem
  rw [findings_eq resolved, Findings.includes_foldl, mem_insertAll] at mem
  rw [findings_eq resolved', Findings.includes_foldl, mem_insertAll]
  refine mem.imp_right fun mem => ?_
  obtain ⟨t, listed, called⟩ := List.mem_flatMap.1 mem
  obtain ⟨t', listed', related⟩ := alike.mem_nodes listed
  exact List.mem_flatMap.2 ⟨t', listed', by rwa [related.directives_eq]⟩

/-- Ascending lists of the same directives are the same list. -/
theorem includes_eq (resolved : root.resolve options = .ok r)
    (resolved' : root'.resolve options = .ok r') (alike : r.root.Alike options r'.root) :
    r'.findings.includes = r.findings.includes :=
  List.Pairwise.eq_of_mem_iff (includes_ascending resolved') (includes_ascending resolved)
    fun _ => ⟨fun mem => includes_subset resolved' resolved alike.symm mem,
      fun mem => includes_subset resolved resolved' alike mem⟩

theorem hasEnum_eq (resolved : root.resolve options = .ok r)
    (resolved' : root'.resolve options = .ok r') (alike : r.root.Alike options r'.root) :
    r'.findings.hasEnum = r.findings.hasEnum := by
  rw [findings_eq resolved, findings_eq resolved', Findings.hasEnum_foldl, Findings.hasEnum_foldl,
    alike.any_nodes fun u u' related => by rw [related.registration?_eq]]

theorem hasVariant_eq (resolved : root.resolve options = .ok r)
    (resolved' : root'.resolve options = .ok r') (alike : r.root.Alike options r'.root) :
    r'.findings.hasVariant = r.findings.hasVariant := by
  rw [findings_eq resolved, findings_eq resolved', Findings.hasVariant_foldl,
    Findings.hasVariant_foldl, alike.any_nodes fun u u' related => related.isVariant_eq]

end Resolution

namespace Schema.Reordered

variable {options : Options} {root root' : Schema}

theorem exists_resolve (h : root.Reordered root') (distinct : root.HasDistinctNames)
    {r : Resolution} (resolved : root.resolve options = .ok r) :
    ∃ r', root'.resolve options = .ok r' ∧ r.root.Alike options r'.root := by
  obtain ⟨⟨t, f⟩, ht, rfl⟩ := map_eq_ok.1 resolved
  obtain ⟨t', f', ht', -⟩ := Typed.resolveNode_reordered root h ht .root {}
  have resolved' : root'.resolve options = .ok ⟨t', f'⟩ := map_eq_ok.2 ⟨_, ht', rfl⟩
  have left := Resolution.isFormOf resolved
  have right := Resolution.isFormOf resolved'
  obtain rfl := left.schema_eq
  obtain rfl := right.schema_eq
  exact ⟨⟨t', f'⟩, resolved', h, distinct, left, right⟩

theorem exists_compile (h : root.Reordered root') (distinct : root.HasDistinctNames) {m : Model}
    (compiled : root.compile options = .ok m) : ∃ m', root'.compile options = .ok m' := by
  obtain ⟨r, objects, resolved, searched, -⟩ := compile_eq_ok.1 compiled
  obtain ⟨r', resolved', alike⟩ := h.exists_resolve distinct resolved
  exact ⟨_, compile_eq_ok.2 ⟨r', objects, resolved', alike.definitions_eq_ok searched, rfl⟩⟩

end Schema.Reordered

/-- **The order of properties is immaterial.**  Of two trees that are equal up to the order of
properties, both compile or neither does.  Their models have the same definitions in the same order,
the same directives and flags, and enumerations under the same descriptors; the values of the
enumerations are the same too, unless a descriptor is registered with different values. -/
theorem property_order_is_immaterial (options : Options) (root root' : Schema)
    (reordered : root.Reordered root') (distinct : root.HasDistinctNames) :
    ((∃ m, root.compile options = .ok m) ↔ ∃ m', root'.compile options = .ok m') ∧
    ∀ m m', root.compile options = .ok m → root'.compile options = .ok m' →
      m'.objects = m.objects ∧ m'.includes = m.includes ∧ m'.hasEnum = m.hasEnum ∧
      m'.hasVariant = m.hasVariant ∧ m'.helperSources = m.helperSources ∧
      (∀ d, d ∈ m'.enums.keys ↔ d ∈ m.enums.keys) ∧
      ((∀ r d values values', root.resolve options = .ok r → (d, values) ∈ r.root.registrations →
          (d, values') ∈ r.root.registrations → values = values') →
        ∀ d, m'.enums.get? d = m.enums.get? d) := by
  refine ⟨⟨fun ⟨m, compiled⟩ => reordered.exists_compile distinct compiled,
    fun ⟨m', compiled'⟩ => reordered.symm.exists_compile (reordered.distinctNames distinct)
      compiled'⟩, fun m m' compiled compiled' => ?_⟩
  obtain ⟨r, objects, resolved, searched, rfl⟩ := Schema.compile_eq_ok.1 compiled
  obtain ⟨r', objects', resolved', searched', rfl⟩ := Schema.compile_eq_ok.1 compiled'
  obtain ⟨r₂, again, alike⟩ := reordered.exists_resolve distinct resolved
  obtain rfl : r' = r₂ := Except.ok.inj (resolved'.symm.trans again)
  have hasEnum := Resolution.hasEnum_eq resolved resolved' alike
  have hasVariant := Resolution.hasVariant_eq resolved resolved' alike
  have registrations : ∀ e, e ∈ r'.root.registrations ↔ e ∈ r.root.registrations :=
    fun e => ⟨fun mem => alike.symm.mem_registrations mem, fun mem => alike.mem_registrations mem⟩
  refine ⟨?_, Resolution.includes_eq resolved resolved' alike, hasEnum, hasVariant, ?_, ?_, ?_⟩
  · exact Except.ok.inj (searched'.symm.trans (alike.definitions_eq_ok searched))
  · show Model.sourcesFor _ _ = Model.sourcesFor _ _
    rw [Model.sourcesFor, Model.sourcesFor, hasEnum, hasVariant]
  · intro d
    show d ∈ Table.keys r'.findings.enums ↔ d ∈ Table.keys r.findings.enums
    rw [Resolution.enums_eq resolved, Resolution.enums_eq resolved', Table.mem_keys_ofEntries,
      Table.mem_keys_ofEntries, List.mem_map, List.mem_map]
    simp only [registrations]
  · intro agree d
    show Table.get? r'.findings.enums d = Table.get? r.findings.enums d
    rw [Resolution.enums_eq resolved, Resolution.enums_eq resolved']
    exact Table.get?_ofEntries_eq registrations (fun d v w => agree r d v w resolved) d

/-- A text with listed values. -/
def labelled (descriptor : String) (values : List String) : Schema :=
  { Schema.ofTypeName "string" with targetType := some descriptor, enum := some values }

/-- An object with declared fields and properties. -/
def record (descriptor : String) (declared : List String) (properties : List (String × Schema)) :
    Schema :=
  { Schema.ofTypeName "object" with
    targetType := some descriptor, declaredFields := some declared, properties }

/-- An object with enumerations among its properties, the second one further down. -/
def swatch : Schema :=
  record "Swatch" ["paint", "tone"] [
    ("tone", labelled "Tone" ["warm", "cold"]),
    ("paint", record "Paint" ["color", "weight"] [
      ("weight", Schema.ofTypeName "number"), ("color", labelled "Color" ["red"])])]

/-- The same object with its properties in declared order. -/
def sortedSwatch : Schema :=
  record "Swatch" ["paint", "tone"] [
    ("paint", record "Paint" ["color", "weight"] [
      ("color", labelled "Color" ["red"]), ("weight", Schema.ofTypeName "number")]),
    ("tone", labelled "Tone" ["warm", "cold"])]

theorem swatch_reordered : swatch.Reordered sortedSwatch := by
  have leaf : ∀ {s : Schema}, s.items = none → s.prefixItems = none → s.oneOf = none →
      s.properties = [] → s.Reordered s := by
    intro s items prefixItems oneOf properties
    refine .node [] rfl ?_ ?_ ?_ ?_ ?_ ?_ <;> simp [*]
  have number : (Schema.ofTypeName "number").Reordered (Schema.ofTypeName "number") :=
    leaf rfl rfl rfl rfl
  have text : ∀ d values, (labelled d values).Reordered (labelled d values) :=
    fun d values => leaf rfl rfl rfl rfl
  have swapped : ∀ {d declared name name' c c' e e'}, c.Reordered e → c'.Reordered e' →
      (record d declared [(name, c), (name', c')]).Reordered
        (record d declared [(name', e'), (name, e)]) := by
    intro d declared name name' c c' e e' first second
    exact .node [(name, e), (name', e')] rfl .none .none .none rfl
      (.cons first (.cons second .nil)) (.swap (name', e') (name, e) [])
  exact swapped (text _ _) (swapped number (text _ _))

theorem sortedSwatch_model :
    ∃ m m', swatch.compile {} = .ok m ∧ sortedSwatch.compile {} = .ok m' ∧
      m.enums.keys = ["Tone", "Color"] ∧ m'.enums.keys = ["Color", "Tone"] ∧
      m'.objects = m.objects ∧ m'.includes = m.includes ∧
      ∀ d, m'.enums.get? d = m.enums.get? d := by
  obtain ⟨m, compiled, keys⟩ : ∃ m, swatch.compile {} = .ok m ∧ m.enums.keys = ["Tone", "Color"] :=
    ⟨_, rfl, rfl⟩
  obtain ⟨m', compiled', keys'⟩ : ∃ m', sortedSwatch.compile {} = .ok m' ∧
      m'.enums.keys = ["Color", "Tone"] := ⟨_, rfl, rfl⟩
  obtain ⟨r, resolved, registered, names⟩ : ∃ r, swatch.resolve {} = .ok r ∧
      r.root.registrations = [("Tone", ["warm", "cold"]), ("Color", ["red"])] ∧
      ∀ names ∈ r.root.nodes.map (fun t => t.schema.properties.map Prod.fst), names.Nodup :=
    ⟨_, rfl, rfl, by decide⟩
  have distinct : swatch.HasDistinctNames := by
    intro bs n walk
    obtain ⟨t, walk', form⟩ := (Resolution.isFormOf resolved).usedWalk walk
    rw [← form.schema_eq]
    exact names _ (List.mem_map.2 ⟨t, Typed.mem_nodes.2 ⟨bs, walk'⟩, rfl⟩)
  obtain ⟨-, same⟩ := property_order_is_immaterial {} swatch sortedSwatch swatch_reordered distinct
  obtain ⟨objects, includes, -, -, -, -, values⟩ := same m m' compiled compiled'
  refine ⟨m, m', compiled, compiled', keys, keys', objects, includes, values ?_⟩
  intro r' d vs ws resolved' first second
  obtain rfl : r = r' := Except.ok.inj (resolved.symm.trans resolved')
  rw [registered] at first second
  have agree : ∀ e ∈ [("Tone", ["warm", "cold"]), ("Color", ["red"])],
      ∀ e' ∈ [("Tone", ["warm", "cold"]), ("Color", ["red"])], e.1 = e'.1 → e.2 = e'.2 := by
    decide
  exact agree _ first _ second rfl

end SchemaModel
