import SchemaModel.Proofs.Correspondence
import SchemaModel.Proofs.LookUps

/-!
# More spellings, and other ones

A tree that compiles still does if more names have spellings, and whatever these spellings are, the
model has the same structure.  Spellings are what descriptors are made of, and neither the resolver
nor the search for definitions lets a descriptor decide where to go.

* `Definition.withoutTypes` — a definition without descriptors;
* `Typed.Twins` — the typed forms of one node under two options;
* `Typed.Twins.correspondence` — the search for definitions goes through both in step;
* `Typed.Twins.nodes` — so does the resolver;
* `overriding_keeps_structure` — what the spellings cannot change in a model;
* `merged_enumerations_differ` — the values of its enumerations they can change.
-/

namespace SchemaModel

/-- A definition without the descriptors in it. -/
def Definition.withoutTypes (d : Definition) : Definition :=
  { d with name := "", fields := d.fields.map fun f => { f with type := "" } }

/-- The type of a node and the slots that it fills decide whether its shape is a choice. -/
theorem Shape.isVariant_of (s : Schema) (items items' : Option String)
    (elements elements' alternatives alternatives' : List String) :
    (Shape.of s items elements alternatives).isVariant =
      (Shape.of s items' elements' alternatives').isVariant := by
  rw [Shape.of, Shape.of]
  cases s.type with
  | choice names => rfl
  | name n =>
    by_cases array : n = "array"
    · subst array
      cases items <;> cases items' <;> cases s.prefixItems <;> rfl
    · by_cases object : n = "object"
      · subst object
        cases s.oneOf <;> rfl
      · simp [array]

namespace Typed

/-! ### Two typed forms of one node -/

/-- Two nodes are typed forms of one node under two options. -/
def Twins (options options' : Options) (t t' : Typed) : Prop :=
  ∃ s, t.IsFormOf options s ∧ t'.IsFormOf options' s

namespace Twins

variable {options options' : Options} {t t' : Typed}

theorem schema_eq (h : t.Twins options options' t') : t'.schema = t.schema := by
  obtain ⟨s, form, form'⟩ := h
  rw [form.schema_eq, form'.schema_eq]

theorem items (h : t.Twins options options' t') :
    Option.Rel (Twins options options') t.items t'.items := by
  obtain ⟨s, form, form'⟩ := h
  exact Rel.through form.forms.items form'.forms.items

theorem prefixItems (h : t.Twins options options' t') :
    List.Forall₂ (Twins options options') t.prefixItems t'.prefixItems := by
  obtain ⟨s, form, form'⟩ := h
  exact Forall₂.through form.forms.prefixItems form'.forms.prefixItems

theorem oneOf (h : t.Twins options options' t') :
    List.Forall₂ (Twins options options') t.oneOf t'.oneOf := by
  obtain ⟨s, form, form'⟩ := h
  exact Forall₂.through form.forms.oneOf form'.forms.oneOf

theorem properties (h : t.Twins options options' t') :
    NamedForall₂ (Twins options options') t.properties t'.properties := by
  obtain ⟨s, form, form'⟩ := h
  exact NamedForall₂.through form.forms.properties form'.forms.properties

/-- **The search for definitions goes through two typed forms of one node in step.** -/
theorem correspondence (options options' : Options) :
    Correspondence (Twins options options') where
  type_eq h := congrArg Schema.type h.schema_eq
  declaredFields_eq h := congrArg Schema.declaredFields h.schema_eq
  default_eq h := congrArg Schema.default h.schema_eq
  items h := h.items
  prefixItems h := h.prefixItems
  oneOf h := h.oneOf
  lookup h := h.properties.lookup

/-- The search finds definitions that differ in nothing but descriptors. -/
theorem ofTyped_withoutTypes (h : t.Twins options options' t') (l : Location) :
    (Definition.ofTyped l t').withoutTypes = (Definition.ofTyped l t).withoutTypes := by
  have corr := correspondence options options'
  have fields : (Definition.fieldsOf t'.properties t.declared).map ({ · with type := "" }) =
      (Definition.fieldsOf t.properties t.declared).map ({ · with type := "" }) := by
    rw [Definition.fieldsOf, Definition.fieldsOf, List.map_filterMap, List.map_filterMap]
    refine List.filterMap_congr fun name _ => ?_
    rw [Option.map_map, Option.map_map]
    refine Rel.map_eq (corr.lookup h name) fun c c' related => ?_
    simp only [Function.comp_apply, corr.literal?_eq related]
  simp only [Definition.ofTyped, Definition.withoutTypes, corr.declared_eq h, fields,
    corr.absent_eq h]

theorem definitions_withoutTypes (h : t.Twins options options' t') (l : Location) :
    (t'.found l).definitions.map Definition.withoutTypes =
      (t.found l).definitions.map Definition.withoutTypes := by
  rw [found, found, List.map_map, List.map_map]
  refine Forall₂.map_eq ((correspondence options options').emitted h) fun e e' related => ?_
  simp only [Function.comp_apply, ← related.1, related.2.ofTyped_withoutTypes]

/-! ### What the resolver gathers from both -/

/-- **The resolver visits two typed forms of one node in step.** -/
theorem nodes (h : t.Twins options options' t') :
    List.Forall₂ (Twins options options') t.nodes t'.nodes := by
  induction t using Typed.induction generalizing t' with
  | step t ih =>
    have list : ∀ {cs cs' : List Typed}, (∀ c ∈ cs, ∃ b, t.Child b c) →
        List.Forall₂ (Twins options options') cs cs' →
          List.Forall₂ (Twins options options') (cs.flatMap Typed.nodes)
            (cs'.flatMap Typed.nodes) := by
      intro cs cs' children twins
      induction twins with
      | nil => exact .nil
      | @cons c c' _ _ twins _ rest =>
        obtain ⟨b, child⟩ := children c List.mem_cons_self
        have others := rest fun c mem => children c (List.mem_cons_of_mem _ mem)
        exact List.rel_append (ih b c child twins) others
    have items : List.Forall₂ (Twins options options') t.items.toList t'.items.toList := by
      have twins := h.items
      generalize t.items = x at twins
      generalize t'.items = x' at twins
      cases twins with
      | none => exact .nil
      | some twins => exact .cons twins .nil
    have properties : List.Forall₂ (Twins options options') (t.properties.map Prod.snd)
        (t'.properties.map Prod.snd) := (namedForall₂_iff.1 h.properties).2
    have indexed : ∀ {cs : List Typed} (branch : Nat → Branch),
        (∀ i c, cs[i]? = some c → t.Child (branch i) c) → ∀ c ∈ cs, ∃ b, t.Child b c := by
      intro cs branch child c mem
      obtain ⟨i, hi⟩ := List.mem_iff_getElem?.1 mem
      exact ⟨branch i, child i c hi⟩
    rw [nodes_eq, nodes_eq, ← List.flatMap_map Prod.snd nodes, ← List.flatMap_map Prod.snd nodes]
    refine List.rel_append (List.rel_append (List.rel_append ?_ ?_) ?_) (.cons h ?_)
    · exact list (fun c mem => ⟨.items, Option.mem_toList.1 mem⟩) items
    · exact list (indexed .prefixItem fun _ _ hi => hi) h.prefixItems
    · exact list (indexed .alternative fun _ _ hi => hi) h.oneOf
    · refine list (fun c mem => ?_) properties
      obtain ⟨p, listed, rfl⟩ := List.mem_map.1 mem
      exact ⟨.property p.1, listed⟩

theorem isVariant_eq (h : t.Twins options options' t') : t'.isVariant = t.isVariant := by
  rw [isVariant, isVariant, shape, shape, h.schema_eq]
  congr 1
  exact Shape.isVariant_of _ _ _ _ _ _ _

/-- The same values are registered, each under the descriptor of its node. -/
theorem registration?_eq (h : t.Twins options options' t') :
    t'.registration? = t.registration?.map fun e => (t'.descriptor, e.2) := by
  rw [registration?, registration?, h.schema_eq]
  cases t.schema.isString <;> cases t.schema.enum <;> rfl

theorem registrations (h : t.Twins options options' t') :
    List.Forall₂ (fun e e' => e.2 = e'.2) t.registrations t'.registrations := by
  have nodes := h.nodes
  rw [Typed.registrations, Typed.registrations]
  generalize t.nodes = us at nodes
  generalize t'.nodes = us' at nodes
  induction nodes with
  | nil => exact .nil
  | @cons u u' _ _ twins _ ih =>
    have own := twins.registration?_eq
    cases registered : u.registration? with
    | none =>
      rw [registered] at own
      rwa [List.filterMap_cons_none registered, List.filterMap_cons_none own]
    | some e =>
      rw [registered] at own
      rw [List.filterMap_cons_some registered, List.filterMap_cons_some own]
      exact .cons rfl ih

theorem any_nodes (h : t.Twins options options' t') {p : Typed → Bool}
    (same : ∀ u u', Twins options options' u u' → p u' = p u) : t'.nodes.any p = t.nodes.any p := by
  have flags := Forall₂.map_eq h.nodes same
  have any_eq : ∀ us : List Typed, us.any p = (us.map p).any id := by
    intro us
    rw [List.any_map]
    rfl
  rw [any_eq, any_eq, flags]

end Twins

end Typed

/-! ### Compilations under more spellings -/

variable {options options' : Options} {root : Schema}

theorem Resolution.twins {r r' : Resolution} (resolved : root.resolve options = .ok r)
    (resolved' : root.resolve options' = .ok r') : r.root.Twins options options' r'.root :=
  ⟨root, isFormOf resolved, isFormOf resolved'⟩

theorem Resolution.flags_eq {r r' : Resolution} (resolved : root.resolve options = .ok r)
    (resolved' : root.resolve options' = .ok r') :
    r'.findings.hasEnum = r.findings.hasEnum ∧ r'.findings.hasVariant = r.findings.hasVariant := by
  have twins := twins resolved resolved'
  rw [findings_eq resolved, findings_eq resolved']
  constructor
  · rw [Findings.hasEnum_foldl, Findings.hasEnum_foldl,
      twins.any_nodes fun u u' twins => by rw [twins.registration?_eq, Option.isSome_map]]
  · rw [Findings.hasVariant_foldl, Findings.hasVariant_foldl,
      twins.any_nodes fun u u' twins => twins.isVariant_eq]

/-- An override may replace a spelling but never removes one. -/
theorem Spellings.keys_subset_overridden (overrides : List (String × String)) :
    default.keys ⊆ (overridden overrides).keys := by
  intro name known
  by_contra missing
  have spelled := mt lookup_eq_none.1 (not_not_intro known)
  have unspelled := lookup_eq_none.2 missing
  change (overridden overrides).get? name = none at unspelled
  rw [overridden, Table.get?_putAll, Option.or_eq_none_iff] at unspelled
  exact spelled unspelled.2

/-- **Overriding keeps the structure.**  What compiles under some spellings compiles under any
spellings of these names and more.  The two models have the same definitions in the same order, up
to the descriptors in them, and the same flags, and they call for the same kinds of support sources.
The same values are registered as enumerations in the same order, and listed in this order unless
the one model tells descriptors apart that are equal in the other.  Overrides of the defaults spell
all names that the defaults do. -/
theorem overriding_keeps_structure :
    (∀ (options options' : Options) (root : Schema) (m : Model),
      options.spellings.keys ⊆ options'.spellings.keys → root.compile options = .ok m →
      ∃ m' r r', root.compile options' = .ok m' ∧
        root.resolve options = .ok r ∧ root.resolve options' = .ok r' ∧
        m'.objects.map Definition.withoutTypes = m.objects.map Definition.withoutTypes ∧
        m'.hasEnum = m.hasEnum ∧ m'.hasVariant = m.hasVariant ∧
        m'.helperSources = (if m.hasEnum then [options'.helpers.enumSource] else []) ++
          (if m.hasVariant then [options'.helpers.variantSource] else []) ∧
        m.enums = .ofEntries r.root.registrations ∧ m'.enums = .ofEntries r'.root.registrations ∧
        r'.root.registrations.map Prod.snd = r.root.registrations.map Prod.snd ∧
        (Table.RepeatAlike r.root.registrations r'.root.registrations →
          m'.enums.map Prod.snd = m.enums.map Prod.snd)) ∧
    ∀ overrides, Spellings.default.keys ⊆ (Spellings.overridden overrides).keys := by
  refine ⟨fun options options' root m subset compiled => ?_, Spellings.keys_subset_overridden⟩
  obtain ⟨r, objects, resolved, searched, rfl⟩ := Schema.compile_eq_ok.1 compiled
  obtain ⟨r', resolved'⟩ := Schema.exists_resolve_of_subset subset ⟨r, resolved⟩
  obtain ⟨searchable, rfl⟩ := Definition.definitions_eq_ok.1 searched
  have twins := Resolution.twins resolved resolved'
  have searchable' := (Typed.Twins.correspondence options options').isSearchable twins searchable
  have searched' := Definition.definitions_eq_ok.2 ⟨searchable', rfl⟩
  obtain ⟨hasEnum, hasVariant⟩ := Resolution.flags_eq resolved resolved'
  have enums := Resolution.enums_eq resolved
  have enums' := Resolution.enums_eq resolved'
  refine ⟨_, r, r', Schema.compile_eq_ok.2 ⟨r', _, resolved', searched', rfl⟩, resolved, resolved',
    twins.definitions_withoutTypes .root, hasEnum, hasVariant, ?_, enums, enums', ?_, ?_⟩
  · show Model.sourcesFor options'.helpers r'.findings = _
    rw [Model.sourcesFor, hasEnum, hasVariant]
  · exact Forall₂.map_eq twins.registrations fun _ _ same => same.symm
  · intro alike
    show r'.findings.enums.map Prod.snd = r.findings.enums.map Prod.snd
    rw [enums, enums']
    exact Table.values_ofEntries alike twins.registrations

/-- An object with two enumerations, a choice and a default value. -/
def manometer : Schema :=
  { Schema.ofTypeName "object" with
    targetType := some "Manometer"
    declaredFields := some ["unit", "limit", "mode"]
    properties := [
      ("mode", { Schema.ofTypeName "string" with
        targetType := some "Mode", enum := some ["low", "high"], default := some (.string "low") }),
      ("unit", { Schema.ofTypeName "string" with enum := some ["bar", "psi"] }),
      ("limit", { Schema.ofTypeName "" with type := .choice ["integer", "number"] })] }

theorem manometer_overridden :
    ∃ m m', manometer.compile {} = .ok m ∧
      manometer.compile { spellings := .overridden [("string", "QString"), ("color", "QColor")] } =
        .ok m' ∧
      m.enums = [("Mode", ["low", "high"]), ("std::string", ["bar", "psi"])] ∧
      m'.enums.map Prod.snd = [["low", "high"], ["bar", "psi"]] ∧
      m'.objects.map Definition.withoutTypes = m.objects.map Definition.withoutTypes ∧
      m'.hasVariant = true := by
  obtain ⟨m, compiled, listed, variant⟩ : ∃ m, manometer.compile {} = .ok m ∧
      m.enums = [("Mode", ["low", "high"]), ("std::string", ["bar", "psi"])] ∧
      m.hasVariant = true := ⟨_, rfl, rfl, rfl⟩
  obtain ⟨keeps, covers⟩ := overriding_keeps_structure
  obtain ⟨m', r, r', compiled', resolved, resolved', objects, -, hasVariant, -, -, -, -, values⟩ :=
    keeps {} { spellings := .overridden [("string", "QString"), ("color", "QColor")] } manometer m
      (covers _) compiled
  cases resolved
  cases resolved'
  refine ⟨m, m', compiled, compiled', listed, (values ?_).trans (by rw [listed]; rfl), objects,
    hasVariant.trans variant⟩
  change Table.RepeatAlike [("Mode", ["low", "high"]), ("std::string", ["bar", "psi"])]
    [("Mode", ["low", "high"]), ("QString", ["bar", "psi"])]
  intro i j
  rcases i with _ | _ | i <;> rcases j with _ | _ | j <;> simp

/-- An object with two enumerations, the second one under a descriptor of its own. -/
def dial : Schema :=
  { Schema.ofTypeName "object" with
    targetType := some "Gauge"
    properties := [
      ("unit", { Schema.ofTypeName "string" with enum := some ["bar", "psi"] }),
      ("mode", { Schema.ofTypeName "string" with
        targetType := some "QString", enum := some ["low", "high"] })] }

/-- With more spellings the two descriptors are the same, and the second enumeration takes the place
of the first: the tables differ in their values and in their length. -/
theorem merged_enumerations_differ :
    let options : Options := { spellings := .overridden [("string", "QString")] }
    ({} : Options).spellings.keys ⊆ options.spellings.keys ∧
    ∃ m m', dial.compile {} = .ok m ∧ dial.compile options = .ok m' ∧
      m.enums = [("std::string", ["bar", "psi"]), ("QString", ["low", "high"])] ∧
      m'.enums = [("QString", ["low", "high"])] ∧
      m'.enums.map Prod.snd ≠ m.enums.map Prod.snd := by
  intro options
  exact ⟨Spellings.keys_subset_overridden _, _, _, rfl, rfl, rfl, rfl, by decide⟩

end SchemaModel
