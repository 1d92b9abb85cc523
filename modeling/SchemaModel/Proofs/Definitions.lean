import SchemaModel.Proofs.Emission
import SchemaModel.Proofs.Failures
import SchemaModel.Proofs.Gathering
import SchemaModel.Proofs.PlaceTexts

/-!
# The definitions of a model

The search for definitions succeeds exactly if every default value on its way has an expression and
every definition declares all its properties.  It then finds the definitions of the nodes that it
emits, in that order; what it finds from a place on is what it finds from the root on, moved to the
place.

* `Definition.ofTyped` — the definition of a node at a place;
* `Typed.IsSearchable` — nothing stands against a search from a node on;
* `Definition.visit_eq_ok` — when a search succeeds and what it finds;
* `Definition.found_relocated` — what is found elsewhere;
* `definitions_are_emitted` — the definitions of a model.
-/

namespace SchemaModel

open Outcome

/-! ### What a search finds -/

/-- The expression of the default value of a node, if it has one. -/
def Typed.literal? (t : Typed) : Option String :=
  t.schema.default.bind fun v => v.toLiteral.toOption

namespace Definition

/-- The fields among declared names: those that name a property. -/
def fieldsOf (properties : List (String × Typed)) (names : List String) : List Field :=
  names.filterMap fun name =>
    (properties.lookup name).map fun c => ⟨name, c.descriptor, c.literal?⟩

/-- The declared names that name no property. -/
def absentOf (properties : List (String × Typed)) (names : List String) : List String :=
  names.filter fun name => (properties.lookup name).isNone

theorem fieldsOf_cons (properties : List (String × Typed)) (name : String) (rest : List String) :
    fieldsOf properties (name :: rest) =
      match properties.lookup name with
      | none => fieldsOf properties rest
      | some c => ⟨name, c.descriptor, c.literal?⟩ :: fieldsOf properties rest := by
  cases h : properties.lookup name <;> simp [fieldsOf, h]

theorem absentOf_cons (properties : List (String × Typed)) (name : String) (rest : List String) :
    absentOf properties (name :: rest) =
      match properties.lookup name with
      | none => name :: absentOf properties rest
      | some _ => absentOf properties rest := by
  cases h : properties.lookup name <;> simp [absentOf, h]

/-- The definition of a node at a place. -/
def ofTyped (l : Location) (t : Typed) : Definition :=
  ⟨t.descriptor, l.text, fieldsOf t.properties t.declared, absentOf t.properties t.declared⟩

theorem fieldNames_ofTyped (l : Location) (t : Typed) :
    (ofTyped l t).fieldNames =
      t.declared.filter fun name => (t.properties.lookup name).isSome := by
  show (fieldsOf t.properties t.declared).map (·.name) = _
  induction t.declared with
  | nil => rfl
  | cons name rest ih =>
    rw [fieldsOf_cons]
    cases hname : t.properties.lookup name with
    | none => rw [List.filter_cons_of_neg (by simp [hname]), ih]
    | some c => rw [List.filter_cons_of_pos (by simp [hname]), List.map_cons, ih]

end Definition

namespace Typed

/-- What the search finds from a node at a place on, if it succeeds. -/
def found (l : Location) (t : Typed) : Visit :=
  ⟨t.literal?, t.emitted.map fun e => .ofTyped (l.along e.1) e.2⟩

/-- What the search finds from the children of a node on. -/
def foundBelow (l : Location) (children : List (Branch × Typed)) : List Definition :=
  children.flatMap fun p => (p.2.found (l.along [p.1])).definitions

theorem found_definitions (l : Location) (t : Typed) :
    (t.found l).definitions =
      foundBelow l t.visitedChildren ++ if t.isDefined then [.ofTyped l t] else [] := by
  have moved : ∀ p : Branch × Typed,
      (p.2.emitted.map fun e => (p.1 :: e.1, e.2)).map
        (fun e => Definition.ofTyped (l.along e.1) e.2) =
      (p.2.found (l.along [p.1])).definitions := by
    intro p
    rw [found, List.map_map]
    refine List.map_congr_left fun e _ => ?_
    show Definition.ofTyped (l.along (p.1 :: e.1)) e.2 = _
    rw [l.along_cons]
  show t.emitted.map (fun e => Definition.ofTyped (l.along e.1) e.2) = _
  rw [emitted_eq, List.map_append, List.map_flatMap, foundBelow]
  congr 1
  · exact List.flatMap_congr fun p _ => moved p
  · cases t.isDefined with
    | false => rfl
    | true =>
      show [Definition.ofTyped (l.along []) t] = [Definition.ofTyped l t]
      rw [l.along_nil]

/-- Nothing stands against the search at a node itself: its default value has an expression, and if
it becomes a definition, it declares all its properties. -/
structure IsFine (t : Typed) : Prop where
  expressible : ∀ v, t.schema.default = some v → ∃ literal, v.toLiteral = .ok literal
  declares : t.isDefined = true → ∀ name ∈ t.properties.map Prod.fst, name ∈ t.declared

/-- Nothing stands against the search at any node that it comes to. -/
def IsSearchable (t : Typed) : Prop := ∀ bs u, Walk Visits t bs u → u.IsFine

theorem isSearchable_iff {t : Typed} :
    t.IsSearchable ↔ t.IsFine ∧ ∀ p ∈ t.visitedChildren, p.2.IsSearchable := by
  constructor
  · intro h
    exact ⟨h [] t (.here t), fun p child bs u walk => h (p.1 :: bs) u (.down child walk)⟩
  · rintro ⟨own, below⟩ bs u walk
    cases walk with
    | here => exact own
    | down child walk => exact below _ child _ _ walk

/-- A search from the node on succeeds exactly if nothing stands against it, with what there is to
be found. -/
def IsFoundBySearch (t : Typed) : Prop :=
  ∀ l v, Definition.visit l t = .ok v ↔ t.IsSearchable ∧ v = t.found l

end Typed

/-! ### Searches that succeed -/

namespace Definition

theorem defaultLiteral_eq_ok {l : Location} {dflt : Option Json} {x : Option String} :
    defaultLiteral l dflt = .ok x ↔
      (∀ v, dflt = some v → ∃ literal, v.toLiteral = .ok literal) ∧
        x = dflt.bind fun v => v.toLiteral.toOption := by
  cases dflt with
  | none => simp [defaultLiteral, eq_comm]
  | some v =>
    rw [defaultLiteral]
    cases hv : v.toLiteral with
    | ok literal => simp [hv, Except.toOption, eq_comm]
    | error number => simp [hv]

/-- A list is searched from left to right, each node at its index. -/
theorem visitList_eq_ok {l : Location} {toBranch : Nat → Branch} {place : Location}
    (places : ∀ i, place.index i = l.along [toBranch i]) {ts : List Typed}
    (each : ∀ t ∈ ts, t.IsFoundBySearch) {i : Nat} {ds : List Definition} :
    visitList place i ts = .ok ds ↔
      (∀ p ∈ (ts.zipIdx i).map fun p => (toBranch p.2, p.1), p.2.IsSearchable) ∧
        ds = Typed.foundBelow l ((ts.zipIdx i).map fun p => (toBranch p.2, p.1)) := by
  induction ts generalizing i ds with
  | nil => simp [visitList, Typed.foundBelow, eq_comm]
  | cons t rest ih =>
    have first := each t List.mem_cons_self
    have others : ∀ t ∈ rest, t.IsFoundBySearch := fun t mem => each t (List.mem_cons_of_mem _ mem)
    rw [List.zipIdx_cons, List.map_cons, List.forall_mem_cons, Typed.foundBelow, List.flatMap_cons,
      visitList]
    constructor
    · intro h
      obtain ⟨v, hv, h⟩ := bind_eq_ok.1 h
      obtain ⟨vs, hvs, h⟩ := bind_eq_ok.1 h
      cases h
      obtain ⟨searchable, rfl⟩ := (first _ _).1 hv
      obtain ⟨searchables, rfl⟩ := (ih others).1 hvs
      rw [places]
      exact ⟨⟨searchable, searchables⟩, rfl⟩
    · rintro ⟨⟨searchable, searchables⟩, rfl⟩
      rw [← places]
      exact bind_eq_ok.2 ⟨_, (first _ _).2 ⟨searchable, rfl⟩,
        bind_eq_ok.2 ⟨_, (ih others).2 ⟨searchables, rfl⟩, rfl⟩⟩

theorem lookup_visitProperties (l : Location) (ps : List (String × Typed)) (name : String) :
    (visitProperties l ps).lookup name =
      (ps.lookup name).map fun c => ⟨c.descriptor, visit (l.key name) c⟩ := by
  induction ps with
  | nil => rfl
  | cons p rest ih =>
    obtain ⟨key, c⟩ := p
    rw [visitProperties, List.lookup_cons, List.lookup_cons, ih]
    by_cases same : name = key
    · rw [same, beq_self_eq_true]
      rfl
    · rw [beq_false_of_ne same]

/-- Declared names are looked up from left to right. -/
theorem members_eq_ok {l : Location} {ps : List (String × Typed)}
    (each : ∀ name c, (name, c) ∈ ps → c.IsFoundBySearch) {names : List String} {m : Members} :
    members (visitProperties (l.key "properties") ps) names = .ok m ↔
      (∀ p ∈ Typed.propertiesNamed ps names, p.2.IsSearchable) ∧
        m = ⟨fieldsOf ps names, absentOf ps names,
          Typed.foundBelow l (Typed.propertiesNamed ps names)⟩ := by
  induction names generalizing m with
  | nil => simp [members, Typed.propertiesNamed, fieldsOf, absentOf, Typed.foundBelow, eq_comm]
  | cons name rest ih =>
    rw [members, lookup_visitProperties, Typed.propertiesNamed_cons, fieldsOf_cons, absentOf_cons]
    cases hname : ps.lookup name with
    | none =>
      constructor
      · intro h
        obtain ⟨others, hothers, h⟩ := bind_eq_ok.1 h
        cases h
        obtain ⟨searchables, rfl⟩ := ih.1 hothers
        exact ⟨searchables, rfl⟩
      · rintro ⟨searchables, rfl⟩
        exact bind_eq_ok.2 ⟨_, ih.2 ⟨searchables, rfl⟩, rfl⟩
    | some c =>
      have own := each name c (mem_of_lookup hname)
      simp only [List.forall_mem_cons, Typed.foundBelow, List.flatMap_cons, Location.along_property]
      constructor
      · intro h
        obtain ⟨v, hv, h⟩ := bind_eq_ok.1 h
        obtain ⟨others, hothers, h⟩ := bind_eq_ok.1 h
        cases h
        obtain ⟨searchable, rfl⟩ := (own _ _).1 hv
        obtain ⟨searchables, rfl⟩ := ih.1 hothers
        exact ⟨⟨searchable, searchables⟩, rfl⟩
      · rintro ⟨⟨searchable, searchables⟩, rfl⟩
        exact bind_eq_ok.2 ⟨_, (own _ _).2 ⟨searchable, rfl⟩,
          bind_eq_ok.2 ⟨_, ih.2 ⟨searchables, rfl⟩, rfl⟩⟩

/-- An object becomes a definition after those found in its declared properties, if it declares all
its properties. -/
theorem ofObject_eq_ok {l : Location} {t : Typed}
    (each : ∀ name c, (name, c) ∈ t.properties → c.IsFoundBySearch) {ds : List Definition} :
    ofObject l t.descriptor t.declared (visitProperties (l.key "properties") t.properties) =
        .ok ds ↔
      (∀ name ∈ t.properties.map Prod.fst, name ∈ t.declared) ∧
        (∀ p ∈ Typed.propertiesNamed t.properties t.declared, p.2.IsSearchable) ∧
        ds = Typed.foundBelow l (Typed.propertiesNamed t.properties t.declared) ++
          [ofTyped l t] := by
  rw [← visitProperties_names (l.key "properties"), List.forall_mem_map, ofObject]
  cases undeclared : (visitProperties (l.key "properties") t.properties).find? fun v =>
      !t.declared.contains v.1 with
  | some p =>
    have missing : p.1 ∉ t.declared := by simpa using List.find?_some undeclared
    constructor
    · intro h
      cases h
    · rintro ⟨declares, -⟩
      exact absurd (declares p (List.mem_of_find?_eq_some undeclared)) missing
  | none =>
    have declares : ∀ p ∈ visitProperties (l.key "properties") t.properties, p.1 ∈ t.declared := by
      intro p mem
      simpa using List.find?_eq_none.1 undeclared p mem
    constructor
    · intro h
      obtain ⟨m, hm, h⟩ := bind_eq_ok.1 h
      cases h
      obtain ⟨searchables, rfl⟩ := (members_eq_ok each).1 hm
      exact ⟨declares, searchables, rfl⟩
    · rintro ⟨-, searchables, rfl⟩
      exact bind_eq_ok.2 ⟨_, (members_eq_ok each).2 ⟨searchables, rfl⟩, rfl⟩

/-- What a search does at a node after it has looked at the default value. -/
def fromChildren (l : Location) (t : Typed) : Except CompileError (List Definition) :=
  if t.schema.isObject then do
    let alternatives ← visitList (l.key "oneOf") 0 t.oneOf
    let own ← if t.declared.isEmpty then pure [] else
      ofObject l t.descriptor t.declared (visitProperties (l.key "properties") t.properties)
    return alternatives ++ own
  else if t.schema.isArray then
    match t.items with
    | some c => do return (← visit (l.key "items") c).definitions
    | none => visitList (l.key "prefixItems") 0 t.prefixItems
  else return []

theorem visit_eq (l : Location) (t : Typed) :
    visit l t = do
      let dflt ← defaultLiteral l t.schema.default
      let ds ← fromChildren l t
      return ⟨dflt, ds⟩ := by
  obtain ⟨schema, descriptor, items, prefixItems, oneOf, properties⟩ := t
  rw [visit, fromChildren, Typed.declared]
  congr 1
  funext dflt
  cases schema.isObject with
  | true =>
    cases schema.declaredFields with
    | none => simp
    | some declared =>
      cases declared with
      | nil => simp
      | cons first others => simp
  | false =>
    cases schema.isArray with
    | true =>
      cases items with
      | some item => simp
      | none => simp
    | false => simp

/-- What there is to be found in the alternatives and then in the declared properties. -/
theorem fromObject_eq_ok {l : Location} {t : Typed} (object : t.schema.isObject = true)
    (each : ∀ b c, t.Child b c → c.IsFoundBySearch) {ds : List Definition} :
    fromChildren l t = .ok ds ↔
      (t.isDefined = true → ∀ name ∈ t.properties.map Prod.fst, name ∈ t.declared) ∧
        (∀ p ∈ t.visitedChildren, p.2.IsSearchable) ∧ ds = (t.found l).definitions := by
  have eachAlternative : ∀ c ∈ t.oneOf, c.IsFoundBySearch := by
    intro c mem
    obtain ⟨i, hi⟩ := List.mem_iff_getElem?.1 mem
    exact each (.alternative i) c hi
  have alternatives : ∀ {ds}, visitList (l.key "oneOf") 0 t.oneOf = .ok ds ↔ _ :=
    visitList_eq_ok (fun i => (l.along_alternative i).symm) eachAlternative
  have own : ∀ {ds}, ofObject l t.descriptor t.declared _ = .ok ds ↔ _ :=
    ofObject_eq_ok fun name c mem => each (.property name) c mem
  rw [fromChildren, if_pos object, Typed.found_definitions, Typed.visitedChildren, if_pos object,
    List.forall_mem_append, Typed.foundBelow, List.flatMap_append, Typed.isDefined, object,
    Bool.true_and]
  cases none : t.declared.isEmpty with
  | true =>
    have names : t.declared = [] := List.isEmpty_iff.1 none
    rw [names]
    constructor
    · intro h
      obtain ⟨as, has, h⟩ := bind_eq_ok.1 h
      cases h
      obtain ⟨searchables, rfl⟩ := alternatives.1 has
      refine ⟨by simp, ⟨searchables, by simp [Typed.propertiesNamed]⟩, ?_⟩
      simp [Typed.propertiesNamed, Typed.foundBelow]
    · rintro ⟨-, ⟨searchables, -⟩, rfl⟩
      refine bind_eq_ok.2 ⟨_, alternatives.2 ⟨searchables, rfl⟩, ?_⟩
      simp [Typed.propertiesNamed, Typed.foundBelow, pure, Except.pure, bind, Except.bind]
  | false =>
    constructor
    · intro h
      obtain ⟨as, has, h⟩ := bind_eq_ok.1 h
      obtain ⟨os, hos, h⟩ := bind_eq_ok.1 h
      cases h
      obtain ⟨searchables, rfl⟩ := alternatives.1 has
      obtain ⟨declares, searchables', rfl⟩ := own.1 hos
      refine ⟨fun _ => declares, ⟨searchables, searchables'⟩, ?_⟩
      rw [List.append_assoc]
      rfl
    · rintro ⟨declares, ⟨searchables, searchables'⟩, rfl⟩
      refine bind_eq_ok.2 ⟨_, alternatives.2 ⟨searchables, rfl⟩,
        bind_eq_ok.2 ⟨_, own.2 ⟨declares rfl, searchables', rfl⟩, ?_⟩⟩
      rw [List.append_assoc]
      rfl

theorem fromChildren_eq_ok {l : Location} {t : Typed}
    (each : ∀ b c, t.Child b c → c.IsFoundBySearch) {ds : List Definition} :
    fromChildren l t = .ok ds ↔
      (t.isDefined = true → ∀ name ∈ t.properties.map Prod.fst, name ∈ t.declared) ∧
        (∀ p ∈ t.visitedChildren, p.2.IsSearchable) ∧ ds = (t.found l).definitions := by
  by_cases object : t.schema.isObject = true
  · exact fromObject_eq_ok object each
  rw [fromChildren, if_neg object, Typed.found_definitions, Typed.visitedChildren, if_neg object,
    Typed.isDefined, Bool.eq_false_iff.2 object, Bool.false_and]
  by_cases array : t.schema.isArray = true
  · rw [if_pos array, if_pos array]
    cases hitems : t.items with
    | some item =>
      have own := each .items item hitems
      constructor
      · intro h
        obtain ⟨v, hv, h⟩ := bind_eq_ok.1 h
        cases h
        rw [← Location.along_items] at hv
        obtain ⟨searchable, rfl⟩ := (own _ _).1 hv
        refine ⟨by simp, List.forall_mem_singleton.2 searchable, ?_⟩
        simp [Typed.foundBelow]
      · rintro ⟨-, searchable, rfl⟩
        rw [← Location.along_items]
        have searchable := searchable (.items, item) (List.mem_singleton.2 rfl)
        refine bind_eq_ok.2 ⟨_, (own _ _).2 ⟨searchable, rfl⟩, ?_⟩
        simp [Typed.foundBelow, pure, Except.pure]
    | none =>
      have eachElement : ∀ c ∈ t.prefixItems, c.IsFoundBySearch := by
        intro c mem
        obtain ⟨i, hi⟩ := List.mem_iff_getElem?.1 mem
        exact each (.prefixItem i) c hi
      have elements : ∀ {ds}, visitList (l.key "prefixItems") 0 t.prefixItems = .ok ds ↔ _ :=
        visitList_eq_ok (fun i => (l.along_prefixItem i).symm) eachElement
      simpa using elements
  · rw [if_neg array, if_neg array]
    simp [Typed.foundBelow, pure, Except.pure, eq_comm]

/-- **A search from a node on succeeds exactly if every default value on its way has an expression
and every definition declares all properties; it then finds what there is to be found.** -/
theorem visit_eq_ok (t : Typed) : t.IsFoundBySearch := by
  induction t using Typed.induction with
  | step t ih =>
    intro l v
    rw [visit_eq, Typed.isSearchable_iff]
    constructor
    · intro h
      obtain ⟨dflt, hdflt, h⟩ := bind_eq_ok.1 h
      obtain ⟨ds, hds, h⟩ := bind_eq_ok.1 h
      cases h
      obtain ⟨expressible, rfl⟩ := defaultLiteral_eq_ok.1 hdflt
      obtain ⟨declares, searchables, rfl⟩ := (fromChildren_eq_ok ih).1 hds
      exact ⟨⟨⟨expressible, declares⟩, searchables⟩, rfl⟩
    · rintro ⟨⟨⟨expressible, declares⟩, searchables⟩, rfl⟩
      exact bind_eq_ok.2 ⟨_, defaultLiteral_eq_ok.2 ⟨expressible, rfl⟩,
        bind_eq_ok.2 ⟨_, (fromChildren_eq_ok ih).2 ⟨declares, searchables, rfl⟩, rfl⟩⟩

/-! ### Definitions that are found elsewhere -/

/-- A definition whose path starts at a place and no longer at the root. -/
def relocated (l : Location) (d : Definition) : Definition :=
  { d with path := l.text ++ String.ofList (d.path.toList.drop 1) }

theorem relocated_ofTyped (l : Location) (bs : List Branch) (t : Typed) :
    relocated l (ofTyped (Location.root.along bs) t) = ofTyped (l.along bs) t := by
  have path : l.text ++ String.ofList ((Location.root.along bs).text.toList.drop 1) =
      (l.along bs).text := by
    apply String.ext
    rw [String.toList_append, String.toList_ofList, Location.toList_text, Location.toList_text,
      Location.toList_text]
    simp [Location.along, Location.root]
  rw [relocated, ofTyped, ofTyped, path]

/-- What is found from a place on is what is found from the root on, each at its place. -/
theorem found_relocated (l : Location) (t : Typed) :
    (t.found l).definitions = (t.found .root).definitions.map (relocated l) := by
  show _ = (t.emitted.map _).map _
  rw [List.map_map]
  exact List.map_congr_left fun e _ => (relocated_ofTyped l e.1 e.2).symm

theorem definitions_eq_ok {t : Typed} {ds : List Definition} :
    t.definitions = .ok ds ↔ t.IsSearchable ∧ ds = (t.found .root).definitions := by
  rw [Typed.definitions, map_eq_ok]
  constructor
  · rintro ⟨v, hv, rfl⟩
    obtain ⟨searchable, rfl⟩ := (visit_eq_ok t _ _).1 hv
    exact ⟨searchable, rfl⟩
  · rintro ⟨searchable, rfl⟩
    exact ⟨_, (visit_eq_ok t _ _).2 ⟨searchable, rfl⟩, rfl⟩

end Definition

/-- Nothing stands against the search from a node that a search comes to. -/
theorem Typed.IsSearchable.of_walk {t u : Typed} {bs : List Branch} (searchable : t.IsSearchable)
    (walk : Walk Typed.Visits t bs u) : u.IsSearchable := by
  induction walk with
  | here => exact searchable
  | down visited _ ih => exact ih ((Typed.isSearchable_iff.1 searchable).2 _ visited)

/-- **The definitions of a model are those of the nodes that the search emits, in that order**, each
with the descriptor of the node as its name and the place of the node as its path.  What a visited
node contributes stands together, and it is what the node alone gives, moved to its place.  If no
node declares a name twice, no node is emitted twice and a node comes after all nodes below it. -/
theorem definitions_are_emitted (options : Options) (root : Schema) (m : Model)
    (compiled : root.compile options = .ok m) :
    ∃ r, root.resolve options = .ok r ∧
      m.objects = r.root.emitted.map (fun e => .ofTyped (Location.root.along e.1) e.2) ∧
      (∀ bs u, Walk Typed.Visits r.root bs u →
        ∃ block alone before after,
          Definition.visit (Location.root.along bs) u = .ok block ∧ u.definitions = .ok alone ∧
          block.definitions = alone.map (.relocated (Location.root.along bs)) ∧
          m.objects = before ++ block.definitions ++ after) ∧
      ((∀ bs t, Walk Typed.Child r.root bs t → t.declared.Nodup) →
        (r.root.emitted.map Prod.fst).Nodup ∧
        ∀ (i j : Nat) (e e' : List Branch × Typed), r.root.emitted[i]? = some e →
          r.root.emitted[j]? = some e' → e.1 <+: e'.1 → e.1 ≠ e'.1 → j < i) := by
  obtain ⟨r, objects, resolved, searched, rfl⟩ := Schema.compile_eq_ok.1 compiled
  obtain ⟨searchable, rfl⟩ := Definition.definitions_eq_ok.1 searched
  refine ⟨r, resolved, rfl, fun bs u walk => ?_, fun distinct => ?_⟩
  · have searchable' := searchable.of_walk walk
    obtain ⟨before, after, split⟩ := Typed.emitted_block walk
    let place := fun e : List Branch × Typed => Definition.ofTyped (Location.root.along e.1) e.2
    refine ⟨u.found (Location.root.along bs), (u.found .root).definitions, before.map place,
      after.map place, (Definition.visit_eq_ok u _ _).2 ⟨searchable', rfl⟩,
      Definition.definitions_eq_ok.2 ⟨searchable', rfl⟩, Definition.found_relocated _ u, ?_⟩
    have moved : ∀ e : List Branch × Typed, place (bs ++ e.1, e.2) =
        .ofTyped ((Location.root.along bs).along e.1) e.2 := by
      intro e
      show Definition.ofTyped (Location.root.along (bs ++ e.1)) e.2 = _
      rw [Location.along_append]
    show r.root.emitted.map place = _
    rw [split, List.map_append, List.map_append, List.map_map]
    congr 2
    exact List.map_congr_left fun e _ => moved e
  · exact ⟨Typed.emitted_walks_nodup distinct, fun i j e e' hi hj above apart =>
      Typed.emitted_before distinct hi hj above apart⟩

/-- A definition with an alternative and a list of items, which are definitions too, and a declared
name without a property. -/
def parcel : Schema :=
  { Schema.ofTypeName "object" with
    targetType := some "Parcel"
    declaredFields := some ["content", "weight"]
    oneOf := some [{ Schema.ofTypeName "object" with
      targetType := some "Letter", declaredFields := some ["pages"] }]
    properties := [("content", { Schema.ofTypeName "array" with
      items := some { Schema.ofTypeName "object" with
        targetType := some "Item", declaredFields := some ["name"] } })] }

theorem parcel_definitions :
    ∃ m r u block, parcel.compile {} = .ok m ∧ parcel.resolve {} = .ok r ∧
      m.objects.map (·.path) = ["$['oneOf'][0]", "$['properties']['content']['items']", "$"] ∧
      (r.root.emitted.map Prod.fst).Nodup ∧ r.root.Visits (.property "content") u ∧
      Definition.visit (Location.root.along [.property "content"]) u = .ok block ∧
      ∃ before after, m.objects = before ++ block.definitions ++ after := by
  obtain ⟨m, compiled, paths⟩ : ∃ m, parcel.compile {} = .ok m ∧
      m.objects.map (·.path) = ["$['oneOf'][0]", "$['properties']['content']['items']", "$"] :=
    ⟨_, rfl, rfl⟩
  obtain ⟨r, resolved, names, u, visited⟩ : ∃ r, parcel.resolve {} = .ok r ∧
      (∀ names ∈ r.root.nodes.map Typed.declared, names.Nodup) ∧
      ∃ u, r.root.Visits (.property "content") u :=
    ⟨_, rfl, by decide, _, List.mem_of_getElem? (i := 1) rfl⟩
  obtain ⟨r', resolved', -, blocks, order⟩ := definitions_are_emitted {} parcel m compiled
  obtain rfl : r = r' := Except.ok.inj (resolved.symm.trans resolved')
  have distinct : ∀ bs t, Walk Typed.Child r.root bs t → t.declared.Nodup := by
    intro bs t walk
    exact names _ (List.mem_map_of_mem (Typed.mem_nodes.2 ⟨bs, walk⟩))
  obtain ⟨block, _, before, after, found, -, -, split⟩ :=
    blocks [.property "content"] u (.down visited (.here u))
  exact ⟨m, r, u, block, compiled, resolved, paths, (order distinct).1, visited, found, before,
    after, split⟩

end SchemaModel
