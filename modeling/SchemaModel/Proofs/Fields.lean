import SchemaModel.Proofs.Definitions

/-!
# The fields of a definition

A definition joins what a node declares with the properties that it has.  The declared names that
are properties become the fields and the others are left over, both in declared order; a field has
the descriptor that its property resolves to by itself, and the expression of the property's default
value.

* `Definition.Joins` — how a definition comes from the names that a node declares;
* `Definition.Joins.perm_names`, `Definition.Joins.partition` — what follows if no name is repeated;
* `Definition.mem_fieldsOf` — the fields one by one;
* `Typed.IsFormOf.joins` — the definition of a typed node joins;
* `fields_join_declaration` — the definitions of a model.
-/

namespace SchemaModel

/-- The fields of a definition are the declared names among the properties of a node, and the other
declared names are absent.  Every property is a field, with its own descriptor and default value. -/
structure Definition.Joins (options : Options) (n : Schema) (declared : List String)
    (d : Definition) : Prop where
  fieldNames : d.fieldNames = declared.filter fun name => name ∈ n.properties.map Prod.fst
  declaredAbsent : d.declaredAbsent = declared.filter fun name => name ∉ n.properties.map Prod.fst
  complete : ∀ name ∈ n.properties.map Prod.fst, name ∈ d.fieldNames
  fields : ∀ f ∈ d.fields, ∃ c, n.properties.lookup f.name = some c ∧
    (∃ alone, c.resolve options = .ok alone ∧ f.type = alone.root.descriptor) ∧
    Option.Rel (fun v literal => v.toLiteral = .ok literal) c.default f.default

namespace Definition.Joins

variable {options : Options} {n : Schema} {declared : List String} {d : Definition}

/-- Names that are not repeated stand once among the fields and once among the properties. -/
theorem perm_names (joins : d.Joins options n declared)
    (distinct : (n.properties.map Prod.fst).Nodup) (nodup : declared.Nodup) :
    d.fieldNames.Perm (n.properties.map Prod.fst) := by
  have fields : d.fieldNames.Nodup := joins.fieldNames ▸ nodup.filter _
  refine (List.perm_ext_iff_of_nodup fields distinct).2 fun name =>
    ⟨fun mem => ?_, joins.complete name⟩
  rw [joins.fieldNames] at mem
  exact of_decide_eq_true (List.mem_filter.1 mem).2

/-- A declared name is a field or absent, and not both. -/
theorem partition (joins : d.Joins options n declared) :
    (d.fieldNames ++ d.declaredAbsent).Perm declared ∧ d.fieldNames.Disjoint d.declaredAbsent := by
  rw [joins.fieldNames, joins.declaredAbsent]
  constructor
  · have split := List.filter_append_perm (fun name => name ∈ n.properties.map Prod.fst) declared
    simpa using split
  · intro name present absent
    have missing := of_decide_eq_true (List.mem_filter.1 absent).2
    exact missing (of_decide_eq_true (List.mem_filter.1 present).2)

end Definition.Joins

/-! ### The definition of a typed node -/

theorem Definition.mem_fieldsOf {properties : List (String × Typed)} {names : List String}
    {f : Field} : f ∈ fieldsOf properties names ↔
      ∃ name ∈ names, ∃ c, properties.lookup name = some c ∧
        ⟨name, c.descriptor, c.literal?⟩ = f := by
  simp [fieldsOf, List.mem_filterMap]

namespace Typed

/-- The default value of a node that a search can pass has the expression that the search finds. -/
theorem IsFine.literal_rel {t : Typed} (fine : t.IsFine) :
    Option.Rel (fun v literal => v.toLiteral = .ok literal) t.schema.default t.literal? := by
  rw [literal?]
  cases hv : t.schema.default with
  | none => exact .none
  | some v =>
    obtain ⟨literal, written⟩ := fine.expressible v hv
    rw [Option.bind_some, written]
    exact .some written

namespace IsFormOf

variable {options : Options} {t : Typed} {n : Schema}

/-- The properties of a typed node have the names of those of its schema node. -/
theorem lookup_isSome (form : t.IsFormOf options n) (name : String) :
    (t.properties.lookup name).isSome = decide (name ∈ n.properties.map Prod.fst) := by
  have names := (namedForall₂_iff.1 form.forms.properties).1
  rw [← names, Bool.eq_iff_iff, decide_eq_true_iff, Option.isSome_iff_ne_none, Ne, lookup_eq_none,
    not_not]

/-- **The definition of a typed node joins what its schema node declares with its properties.** -/
theorem joins (form : t.IsFormOf options n) (searchable : t.IsSearchable)
    (defined : t.isDefined = true) (l : Location) :
    (Definition.ofTyped l t).Joins options n t.declared := by
  have object := (isDefined_iff.1 defined).1
  have fine := (isSearchable_iff.1 searchable).1
  have fieldNames : (Definition.ofTyped l t).fieldNames =
      t.declared.filter fun name => name ∈ n.properties.map Prod.fst := by
    rw [Definition.fieldNames_ofTyped]
    exact List.filter_congr fun name _ => form.lookup_isSome name
  refine ⟨fieldNames, List.filter_congr fun name _ => ?_, fun name mem => ?_, fun f mem => ?_⟩
  · rw [← Option.not_isSome, form.lookup_isSome name, decide_not]
  · have declares := fine.declares defined name
      ((namedForall₂_iff.1 form.forms.properties).1 ▸ mem)
    rw [fieldNames]
    exact List.mem_filter.2 ⟨declares, decide_eq_true mem⟩
  · obtain ⟨name, listed, c, found, rfl⟩ := Definition.mem_fieldsOf.1 mem
    obtain ⟨s, found', form'⟩ := Rel.exists_of_eq_some (form.forms.properties.lookup name) found
    obtain ⟨alone, resolved, rfl⟩ := form'.resolve
    have visited : t.Visits (.property name) alone.root := by
      rw [Visits, visitedChildren, if_pos object]
      exact List.mem_append_right _ (mem_propertiesNamed.2 ⟨name, listed, rfl, found⟩)
    have fine' : alone.root.IsFine := searchable [.property name] _ (.down visited (.here _))
    have literal := fine'.literal_rel
    rw [form'.schema_eq] at literal
    exact ⟨s, found', ⟨alone, resolved, rfl⟩, literal⟩

end IsFormOf

end Typed

/-- **Every definition of a model joins what its node declares with the properties that the node
has.**  The definitions are those of the nodes that the search emits, in that order.  The declared
names are divided into fields and absent names, and if no name is repeated, the fields are the
properties in another order. -/
theorem fields_join_declaration (options : Options) (root : Schema) (m : Model)
    (compiled : root.compile options = .ok m) :
    ∃ r, root.resolve options = .ok r ∧
      List.Forall₂ (fun d e => ∃ n declared, Walk Schema.UsedChild root e.1 n ∧ e.2.schema = n ∧
        n.isObject = true ∧ n.declaredFields = some declared ∧ declared ≠ [] ∧
        d.name = e.2.descriptor ∧ d.path = (Location.root.along e.1).text ∧
        d.Joins options n declared ∧
        (d.fieldNames ++ d.declaredAbsent).Perm declared ∧
        d.fieldNames.Disjoint d.declaredAbsent ∧
        (declared.Nodup → (n.properties.map Prod.fst).Nodup →
          d.fieldNames.Perm (n.properties.map Prod.fst))) m.objects r.root.emitted := by
  obtain ⟨r, objects, resolved, searched, rfl⟩ := Schema.compile_eq_ok.1 compiled
  obtain ⟨searchable, rfl⟩ := Definition.definitions_eq_ok.1 searched
  refine ⟨r, resolved, List.forall₂_map_left_iff.2 (List.forall₂_same.2 fun e mem => ?_)⟩
  obtain ⟨walk, defined⟩ := Typed.mem_emitted.1 mem
  obtain ⟨n, walk', form⟩ := (Resolution.isFormOf resolved).walk (walk.mono Typed.Visits.child)
  obtain ⟨object, declared, declares, nonempty⟩ := Typed.isDefined_iff.1 defined
  have names : e.2.declared = declared := by rw [Typed.declared, declares]; rfl
  have joins := form.joins (searchable.of_walk walk) defined (Location.root.along e.1)
  rw [names] at joins
  rw [form.schema_eq] at object declares
  exact ⟨n, declared, walk', form.schema_eq, object, declares, nonempty, rfl, rfl, joins,
    joins.partition.1, joins.partition.2, fun nodup distinct => joins.perm_names distinct nodup⟩

/-- A definition that declares its properties in another order, and one name more. -/
def menu : Schema :=
  { Schema.ofTypeName "object" with
    targetType := some "Menu"
    declaredFields := some ["price", "extras", "name"]
    properties := [
      ("name", { Schema.ofTypeName "string" with default := some (.string "soup") }),
      ("price", Schema.ofTypeName "number")] }

theorem menu_fields :
    ∃ m d, menu.compile {} = .ok m ∧ m.objects = [d] ∧ d.declaredAbsent = ["extras"] ∧
      d.fieldNames = ["price", "name"] ∧ d.fieldNames.Perm ["name", "price"] ∧
      ∀ f ∈ d.fields, f.name = "name" → f.default = some "\"soup\"" := by
  obtain ⟨m, d, compiled, single⟩ : ∃ m d, menu.compile {} = .ok m ∧ m.objects = [d] :=
    ⟨_, _, rfl, rfl⟩
  obtain ⟨r, resolved, joined⟩ := fields_join_declaration {} menu m compiled
  have root : r.root.schema = menu := (Resolution.isFormOf resolved).schema_eq
  have emitted : ([], r.root) ∈ r.root.emitted := by
    refine Typed.mem_emitted.2 ⟨.here _, ?_⟩
    rw [Typed.isDefined, Typed.declared, root]
    rfl
  rw [single] at joined
  obtain ⟨e, es, first, others, listed⟩ := List.forall₂_cons_left_iff.1 joined
  rw [listed, List.forall₂_nil_left_iff.1 others, List.mem_singleton] at emitted
  subst emitted
  obtain ⟨n, declared, -, same, -, declares, -, -, -, joins, -, -, perm⟩ := first
  obtain rfl : menu = n := root.symm.trans same
  obtain rfl : ["price", "extras", "name"] = declared := Option.some.inj declares
  refine ⟨m, d, compiled, single, joins.declaredAbsent, joins.fieldNames,
    perm (by decide) (by decide), fun f mem named => ?_⟩
  obtain ⟨c, found, -, literal⟩ := joins.fields f mem
  rw [named] at found
  cases found
  obtain ⟨text, written, expressed⟩ := Rel.exists_of_eq_some literal rfl
  cases expressed
  exact written

end SchemaModel
