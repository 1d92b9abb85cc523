import SchemaModel.Proofs.AcceptedNodes
import SchemaModel.Proofs.Definitions
import SchemaModel.Proofs.Enumerations

/-!
# The models of accepted documents

The rules that the nodes of an accepted document keep carry over to its model, by way of the typed
nodes: what a node declares becomes the names of a definition, what it lists becomes an enumeration,
and its children become the arguments of its descriptor.

* `Definition.ofTyped_names` — the names of a definition;
* `Typed.IsApplied` — a descriptor that applies a generic type to arguments;
* `Typed.IsFormOf.array_applied`, `Typed.IsFormOf.choice_applied`,
  `Typed.IsFormOf.oneOf_applied` — the nodes that have such descriptors;
* `Location.hasPlainKeys_along` — which places have plain keys;
* `accepted_models_keep_rules` — what acceptance guarantees about a model.
-/

namespace SchemaModel

open Outcome

/-! ### The names of a definition -/

namespace Definition

/-- **The names of a definition** are all names that its node declares, the fields apart from those
that have no property. -/
theorem ofTyped_names {l : Location} {t : Typed} (distinct : t.declared.Nodup)
    (defined : t.isDefined = true) :
    (ofTyped l t).fieldNames.Nodup ∧ (ofTyped l t).declaredAbsent.Nodup ∧
      (ofTyped l t).fieldNames.Disjoint (ofTyped l t).declaredAbsent ∧
      ¬ ((ofTyped l t).fieldNames = [] ∧ (ofTyped l t).declaredAbsent = []) := by
  rw [fieldNames_ofTyped]
  refine ⟨distinct.filter _, distinct.filter _, ?_, ?_⟩
  · intro name present absent
    have some := (List.mem_filter.1 present).2
    have none := (List.mem_filter.1 absent).2
    rw [Option.isNone_iff_eq_none] at none
    rw [none] at some
    cases some
  · rintro ⟨noField, noAbsent⟩
    have nonempty : t.declared ≠ [] := by
      intro empty
      simp [Typed.isDefined, empty] at defined
    obtain ⟨name, mem⟩ := List.exists_mem_of_ne_nil _ nonempty
    have present := List.filter_eq_nil_iff.1 noField name mem
    have absent := List.filter_eq_nil_iff.1 noAbsent name mem
    cases hname : t.properties.lookup name <;> simp [hname] at present absent

end Definition

/-! ### Descriptors with arguments -/

namespace Typed

/-- The descriptor of a node is the spelling of a generic type, applied to at least one
argument. -/
def IsApplied (spellings : Spellings) (t : Typed) (generic : String) (arguments : List String) :
    Prop :=
  arguments ≠ [] ∧ ∃ spelling, spellings.get? generic = some spelling ∧
    t.descriptor = Shape.apply spelling arguments

theorem isApplied_of_descriptor {spellings : Spellings} {t : Typed} {generic : String}
    {arguments : List String} (nonempty : arguments ≠ [])
    (h : (do return Shape.apply (← Shape.spell spellings generic) arguments) =
      Except.ok t.descriptor) : t.IsApplied spellings generic arguments := by
  obtain ⟨spelling, found, applied⟩ := bind_eq_ok.1 h
  exact ⟨nonempty, spelling, Rules.spell_eq_ok.1 found, (Except.ok.inj applied).symm⟩

theorem descriptors_ne_nil {options : Options} {ts : List Typed} {ss : List Schema}
    (forms : List.Forall₂ (IsFormOf options) ts ss) (nonempty : ss ≠ []) :
    ts.map (·.descriptor) ≠ [] := by
  cases forms with
  | nil => exact absurd rfl nonempty
  | cons first rest => exact List.cons_ne_nil _ _

namespace IsFormOf

variable {options : Options} {t : Typed} {s : Schema}

/-- The descriptor of a node without an explicit type is that of its shape. -/
theorem shape_descriptor (h : t.IsFormOf options s) (untargeted : s.targetType = none) :
    t.shape.descriptor options.spellings = .ok t.descriptor := by
  obtain ⟨l, depth, f, f', h⟩ := h
  obtain ⟨rfl, isVariant, f₁, f₂, f₃, f₄, parts, -⟩ := resolveNode_eq_ok.1 h
  have own := describe_eq_ok.1 parts.descriptor
  rw [untargeted] at own
  exact own.1

/-- **An array is applied to its items or to its prefix items**; it never falls back on the plain
spelling of its type. -/
theorem array_applied (h : t.IsFormOf options s) (rules : s.KeepsRules)
    (untargeted : s.targetType = none) (array : s.type = .name "array") :
    t.shape ≠ .plain "array" ∧
      ((∃ c, t.items = some c ∧ t.IsApplied options.spellings "array" [c.descriptor]) ∨
        t.IsApplied options.spellings "tuple" (t.prefixItems.map (·.descriptor))) := by
  have described := h.shape_descriptor untargeted
  have related := h.forms.items
  have elements := h.forms.prefixItems
  rw [Typed.shape, h.schema_eq, shapeOf, Shape.of, array] at described ⊢
  have uses : s.isArray = true := by rw [Schema.isArray, array]; rfl
  rw [Schema.usedItems, if_pos uses] at related
  rw [Schema.usedPrefixItems, if_pos uses] at elements
  cases hitems : t.items with
  | some c =>
    rw [hitems] at described
    have apart : Shape.array c.descriptor ≠ .plain "array" := by
      intro same
      cases same
    exact ⟨apart, .inl ⟨c, rfl, isApplied_of_descriptor (List.cons_ne_nil _ _) described⟩⟩
  | none =>
    -- without items, acceptance leaves only prefix items
    rw [hitems] at related described
    have absent : s.items = none := by
      cases hs : s.items with
      | none => rfl
      | some n => rw [hs] at related; cases related
    have present : s.prefixItems.isSome = true := by
      rcases rules.array array with items | present
      · rw [absent] at items
        cases items
      · exact present
    obtain ⟨nodes, hnodes⟩ := Option.isSome_iff_exists.1 present
    have nonempty : s.prefixItems.getD [] ≠ [] := by
      rw [hnodes]
      exact rules.elements nodes hnodes
    simp only [Option.map_none, present, if_true] at described ⊢
    have apart : Shape.tuple (t.prefixItems.map (·.descriptor)) ≠ .plain "array" := by
      intro same
      cases same
    exact ⟨apart, .inr (isApplied_of_descriptor (descriptors_ne_nil elements nonempty) described)⟩

/-- **A choice between type names is a variant of their spellings.** -/
theorem choice_applied (h : t.IsFormOf options s) (rules : s.KeepsRules)
    (untargeted : s.targetType = none) {names : List String} (choice : s.type = .choice names) :
    ∃ arguments, names.mapM options.spellings.get? = some arguments ∧
      t.IsApplied options.spellings "variant" arguments := by
  have described := h.shape_descriptor untargeted
  rw [Typed.shape, h.schema_eq, shapeOf, Shape.of, choice] at described
  obtain ⟨arguments, spelled, described⟩ := bind_eq_ok.1 described
  refine ⟨arguments, Rules.spellAll_eq_ok spelled, isApplied_of_descriptor ?_ described⟩
  rintro rfl
  cases names with
  | nil => exact rules.choices [] choice rfl
  | cons name rest =>
    obtain ⟨first, -, spelled⟩ := bind_eq_ok.1 spelled
    obtain ⟨others, -, spelled⟩ := bind_eq_ok.1 spelled
    cases spelled

/-- **A node with alternatives is a variant of them.** -/
theorem oneOf_applied (h : t.IsFormOf options s) (rules : s.KeepsRules)
    (untargeted : s.targetType = none) (present : s.oneOf.isSome = true) :
    t.IsApplied options.spellings "variant" (t.oneOf.map (·.descriptor)) := by
  have object := rules.object present
  have described := h.shape_descriptor untargeted
  have alternatives := h.forms.oneOf
  have uses : s.isObject = true := by rw [Schema.isObject, object]; rfl
  rw [Typed.shape, h.schema_eq, shapeOf, Shape.of, object] at described
  rw [Schema.usedOneOf, if_pos uses] at alternatives
  obtain ⟨nodes, hnodes⟩ := Option.isSome_iff_exists.1 present
  have nonempty : s.oneOf.getD [] ≠ [] := by
    rw [hnodes]
    exact rules.alternatives nodes hnodes
  simp only [present, if_true] at described
  exact isApplied_of_descriptor (descriptors_ne_nil alternatives nonempty) described

end IsFormOf

end Typed

/-! ### Places with plain keys -/

/-- The keys of a place are those of slots and the names of the properties that lead to it. -/
theorem Location.hasPlainKeys_along {bs : List Branch}
    (plain : ∀ name, .property name ∈ bs → ¬ closing <:+: name.toList) :
    HasPlainKeys (root.along bs).steps := by
  have slots : ∀ slot : Slot, ¬ closing <:+: slot.key.toList := by
    intro slot
    cases slot <;> decide
  intro name mem
  obtain ⟨b, listed, mem⟩ := List.mem_flatMap.1 mem
  rw [Branch.steps_eq] at mem
  rcases List.mem_cons.1 mem with same | inner
  · cases same
    exact slots b.slot
  · cases b with
    | property name' =>
      cases List.mem_singleton.1 inner
      exact plain _ listed
    | _ => simp [Branch.inner] at inner

/-! ### Compilations of documents -/

/-- Wherever branches lead in the resolved tree of an accepted document, the node there keeps the
rules, and the branches lead through the document. -/
theorem Json.Describes.exists_form {document : Json} {root : Schema} (h : document.Describes root)
    {options : Options} {r : Resolution} (resolved : root.resolve options = .ok r)
    {bs : List Branch} {t : Typed} (walk : Walk Typed.Child r.root bs t) :
    t.IsFormOf options t.schema ∧ t.schema.KeepsRules ∧ ∃ v, Walk Json.Child document bs v := by
  obtain ⟨n, walk', form⟩ := (Resolution.isFormOf resolved).walk walk
  obtain rfl := form.schema_eq
  obtain ⟨v, walk'', describes⟩ := h.exists_walk (walk'.mono Schema.UsedChild.child)
  exact ⟨form, describes.keepsRules, v, walk''⟩

theorem Schema.KeepsRules.declared_nodup {t : Typed} (rules : t.schema.KeepsRules) :
    t.declared.Nodup := by
  rw [Typed.declared]
  cases declares : t.schema.declaredFields with
  | none => exact List.nodup_nil
  | some names => exact rules.declared names declares

/-- **The places of definitions are told apart by their texts** if no name is declared twice and no
property on the way to a definition has a name with the closing mark. -/
theorem Definition.paths_nodup {t : Typed}
    (distinct : ∀ bs u, Walk Typed.Child t bs u → u.declared.Nodup)
    (plain : ∀ bs u, Walk Typed.Child t bs u → ∀ name, .property name ∈ bs →
      ¬ Location.closing <:+: name.toList) :
    ((t.found .root).definitions.map (·.path)).Nodup := by
  have keys : ∀ e ∈ t.emitted, Location.HasPlainKeys (Location.root.along e.1).steps := by
    intro e mem
    have walk := (Typed.mem_emitted.1 mem).1.mono Typed.Visits.child
    exact Location.hasPlainKeys_along (plain e.1 e.2 walk)
  show ((t.emitted.map _).map _).Nodup
  rw [List.map_map]
  refine List.pairwise_map.2 ((Typed.emitted_childrenFirst distinct).imp_of_mem ?_)
  intro e e' mem mem' apart same
  have place := Location.text_injective (keys e mem) (keys e' mem') same
  exact apart (Location.along_injective _ place ▸ List.prefix_rfl)

/-- **What acceptance guarantees about a model.**  Whatever the options are, the names of a
definition are distinct and there is at least one; every enumeration has a value; arrays, choices
and nodes with alternatives have descriptors with at least one argument, unless they have an
explicit type; and if no property has a name with the closing mark of a key, the paths of the
definitions are distinct. -/
theorem accepted_models_keep_rules (options : Options) (document : Json) (m : Model)
    (distinct : document.HasDistinctKeys)
    (compiled : compile options Validator.metaSchema document = .ok m) :
    ∃ root r, Schema.ofJson document = .ok root ∧ root.resolve options = .ok r ∧
      root.compile options = .ok m ∧
      (∀ d ∈ m.objects, d.fieldNames.Nodup ∧ d.declaredAbsent.Nodup ∧
        d.fieldNames.Disjoint d.declaredAbsent ∧ ¬ (d.fieldNames = [] ∧ d.declaredAbsent = [])) ∧
      (∀ e ∈ m.enums, e.2 ≠ []) ∧
      (∀ bs t, Walk Typed.Child r.root bs t → t.schema.targetType = none →
        (t.schema.type = .name "array" →
          t.shape ≠ .plain "array" ∧
            ((∃ c, t.items = some c ∧ t.IsApplied options.spellings "array" [c.descriptor]) ∨
              t.IsApplied options.spellings "tuple" (t.prefixItems.map (·.descriptor)))) ∧
        (∀ names, t.schema.type = .choice names →
          ∃ arguments, names.mapM options.spellings.get? = some arguments ∧
            t.IsApplied options.spellings "variant" arguments) ∧
        (t.schema.oneOf.isSome = true →
          t.IsApplied options.spellings "variant" (t.oneOf.map (·.descriptor)))) ∧
      ((∀ bs v name c, Walk Json.Child document bs v → v.Child (.property name) c →
          ¬ "']".toList <:+: name.toList) →
        (m.objects.map (·.path)).Nodup) := by
  obtain ⟨-, accepted, root, decoded, compiled⟩ := compile_eq_ok.1 compiled
  have describes : document.Describes root :=
    ⟨MetaSchema.metaSchema_eq_ok.1 accepted, distinct, decoded⟩
  obtain ⟨r, objects, resolved, searched, rfl⟩ := Schema.compile_eq_ok.1 compiled
  obtain ⟨-, rfl⟩ := Definition.definitions_eq_ok.1 searched
  have declared : ∀ bs t, Walk Typed.Child r.root bs t → t.declared.Nodup := by
    intro bs t walk
    exact (describes.exists_form resolved walk).2.1.declared_nodup
  refine ⟨root, r, decoded, resolved, compiled, fun d mem => ?_, fun e mem => ?_,
    fun bs t walk untargeted => ?_, fun plain => ?_⟩
  · obtain ⟨⟨bs, t⟩, emitted, rfl⟩ := List.mem_map.1 mem
    obtain ⟨walk, defined⟩ := Typed.mem_emitted.1 emitted
    exact Definition.ofTyped_names (declared bs t (walk.mono Typed.Visits.child)) defined
  · change e ∈ r.findings.enums at mem
    rw [Resolution.enums_eq resolved] at mem
    rcases Table.mem_of_mem_putAll mem with none | registered
    · cases none
    · obtain ⟨t, mem, registers⟩ := List.mem_filterMap.1 registered
      obtain ⟨bs, walk⟩ := Typed.mem_nodes.1 mem
      obtain ⟨-, rules, -⟩ := describes.exists_form resolved walk
      exact rules.values e.2 (Typed.registration?_eq_some.1 registers).2.1
  · obtain ⟨form, rules, -⟩ := describes.exists_form resolved walk
    exact ⟨form.array_applied rules untargeted, fun names => form.choice_applied rules untargeted,
      form.oneOf_applied rules untargeted⟩
  · refine Definition.paths_nodup declared fun bs t walk name mem => ?_
    obtain ⟨-, -, v, walk'⟩ := describes.exists_form resolved walk
    obtain ⟨cs, u, c, reached, child⟩ := walk'.exists_child_of_mem mem
    exact plain cs u name c reached child

/-- A definition inside another, beside an array of texts from an enumeration, a node with two
types and one with two alternatives.  Two slots of the outer definition are written with their
second keys, and it declares a name that has no property. -/
def shelfDocument : Json :=
  .object [("cpp_type", .string "Shelf"), ("type", .string "object"),
    ("properties", .object [
      ("size", .object [("type", .string "object"), ("target_type", .string "Size"),
        ("declared_fields", .array [.string "width"])]),
      ("books", .object [("type", .string "array"), ("items", .object [("type", .string "string"),
        ("enum", .array [.string "atlas", .string "novel"])])]),
      ("load", .object [("type", .array [.string "integer", .string "number"])]),
      ("label", .object [("type", .string "object"), ("oneOf", .array [
        .object [("type", .string "string")], .object [("type", .string "integer")]])])]),
    ("cpp_fields", .array [.string "size", .string "books", .string "load", .string "label",
      .string "room"])]

/-- The nodes of that document. -/
def shelf : Schema :=
  { Schema.ofTypeName "object" with
    targetType := some "Shelf"
    declaredFields := some ["size", "books", "load", "label", "room"]
    properties := [
      ("size", { Schema.ofTypeName "object" with
        targetType := some "Size"
        declaredFields := some ["width"] }),
      ("books", { Schema.ofTypeName "array" with
        items := some { Schema.ofTypeName "string" with enum := some ["atlas", "novel"] } }),
      ("load", { Schema.ofTypeName "" with type := .choice ["integer", "number"] }),
      ("label", { Schema.ofTypeName "object" with
        oneOf := some [Schema.ofTypeName "string", Schema.ofTypeName "integer"] })] }

theorem shelfDocument_property {bs : List Branch} {v c : Json} {name : String}
    (walk : Walk Json.Child shelfDocument bs v) (child : v.Child (.property name) c) :
    name ∈ ["size", "books", "load", "label"] := by
  have leaf : ∀ {members : List (String × Json)} {bs : List Branch},
      (∀ key ∈ ["items", "prefixItems", "oneOf", "properties"], key ∉ members.map Prod.fst) →
        ¬ Walk Json.Child (.object members) bs v := by
    intro members bs none walk
    have childless : ∀ b w, ¬ (Json.object members).Child b w := by
      intro b w first
      obtain ⟨u, mem, -⟩ := Json.child_iff_finds.1 first
      exact none b.slot.key (by cases b <;> simp [Branch.slot, Slot.key]) (List.mem_map_of_mem mem)
    cases walk with
    | here => exact childless _ _ child
    | down first _ => exact childless _ _ first
  cases walk with
  | here =>
    obtain ⟨nodes, mem, mem'⟩ := child
    simp at mem
    subst mem
    have named := List.mem_map_of_mem (f := Prod.fst) mem'
    exact named
  | @down _ u _ b _ first walk =>
    cases b <;> simp [shelfDocument, Json.Child] at first
    obtain ⟨-, rfl⟩ | ⟨-, rfl⟩ | ⟨-, rfl⟩ | ⟨-, rfl⟩ := first
    · exact (leaf (by decide) walk).elim
    · cases walk with
      | here => simp [Json.Child] at child
      | @down _ u _ b _ second walk =>
        cases b <;> simp [Json.Child] at second
        subst second
        exact (leaf (by decide) walk).elim
    · exact (leaf (by decide) walk).elim
    · cases walk with
      | here => simp [Json.Child] at child
      | @down _ u _ b _ second walk =>
        cases b <;> simp [Json.Child] at second
        have mem := List.mem_of_getElem? second
        simp only [List.mem_cons, List.not_mem_nil, or_false] at mem
        obtain rfl | rfl := mem
        all_goals exact (leaf (by decide) walk).elim

/-- The typed nodes of that document, with what the rules ask of them. -/
theorem shelf_resolves :
    ∃ r size books load label c, shelf.resolve {} = .ok r ∧
      r.root.properties = [("size", size), ("books", books), ("load", load), ("label", label)] ∧
      books.items = some c ∧ books.prefixItems = [] ∧ c.descriptor = "std::string" ∧
      (books.schema.targetType = none ∧ books.schema.type = .name "array") ∧
      (load.schema.targetType = none ∧ load.schema.type = .choice ["integer", "number"]) ∧
      label.schema.targetType = none ∧ label.schema.oneOf.isSome = true ∧
      label.oneOf.map (·.descriptor) = ["std::string", "int64_t"] :=
  ⟨_, _, _, _, _, _, rfl, rfl, rfl, rfl, rfl, ⟨rfl, rfl⟩, ⟨rfl, rfl⟩, rfl, rfl, rfl⟩

theorem shelf_model :
    ∃ m r books load label, compile {} Validator.metaSchema shelfDocument = .ok m ∧
      shelf.resolve {} = .ok r ∧
      m.objects.map (·.path) = ["$['properties']['size']", "$"] ∧
      (m.objects.map (·.path)).Nodup ∧
      (∀ d ∈ m.objects, d.fieldNames.Nodup ∧ d.declaredAbsent.Nodup ∧
        d.fieldNames.Disjoint d.declaredAbsent ∧ ¬ (d.fieldNames = [] ∧ d.declaredAbsent = [])) ∧
      m.enums.keys = ["std::string"] ∧ (∀ e ∈ m.enums, e.2 ≠ []) ∧
      r.root.properties.map Prod.fst = ["size", "books", "load", "label"] ∧
      ("books", books) ∈ r.root.properties ∧
      books.IsApplied .default "array" ["std::string"] ∧
      ("load", load) ∈ r.root.properties ∧
      load.IsApplied .default "variant" ["int64_t", "double"] ∧
      ("label", label) ∈ r.root.properties ∧
      label.IsApplied .default "variant" ["std::string", "int64_t"] := by
  have distinct : shelfDocument.HasDistinctKeys := by
    simp [shelfDocument, Json.HasDistinctKeys, Json.MembersHaveDistinctKeys,
      Json.ItemsHaveDistinctKeys]
  have passed : Nesting.check shelfDocument = .ok () := by cbv
  have accepted : Validator.metaSchema shelfDocument = .ok () := rfl
  have decoded : Schema.ofJson shelfDocument = .ok shelf := rfl
  obtain ⟨m, compiled, places, keys⟩ : ∃ m, shelf.compile {} = .ok m ∧
      m.objects.map (·.path) = ["$['properties']['size']", "$"] ∧
      m.enums.keys = ["std::string"] := ⟨_, rfl, rfl, rfl⟩
  have compiled : compile {} Validator.metaSchema shelfDocument = .ok m :=
    compile_eq_ok.2 ⟨passed, accepted, shelf, decoded, compiled⟩
  obtain ⟨root, r, decoded', resolved, -, names, values, applied, paths⟩ :=
    accepted_models_keep_rules {} shelfDocument m distinct compiled
  cases decoded.symm.trans decoded'
  obtain ⟨r', size, books, load, label, c, resolved', properties, items, untupled, text, array,
    choice, alternatives⟩ := shelf_resolves
  cases resolved.symm.trans resolved'
  have child : ∀ {name t}, (name, t) ∈ r.root.properties →
      Walk Typed.Child r.root [.property name] t := fun mem => .down mem (.here _)
  have mem₁ : ("books", books) ∈ r.root.properties := by simp [properties]
  have mem₂ : ("load", load) ∈ r.root.properties := by simp [properties]
  have mem₃ : ("label", label) ∈ r.root.properties := by simp [properties]
  refine ⟨m, r, books, load, label, compiled, resolved, places, paths ?_, names, keys, values,
    by rw [properties]; rfl, mem₁, ?_, mem₂, ?_, mem₃, ?_⟩
  · intro bs v name c walk child
    have mem := shelfDocument_property walk child
    simp only [List.mem_cons, List.not_mem_nil, or_false] at mem
    obtain rfl | rfl | rfl | rfl := mem <;> decide
  · obtain ⟨-, ⟨c', found, list⟩ | tuple⟩ := (applied _ _ (child mem₁) array.1).1 array.2
    · cases items.symm.trans found
      rw [text] at list
      exact list
    · rw [untupled] at tuple
      exact absurd rfl tuple.1
  · obtain ⟨arguments, spelled, variant⟩ := (applied _ _ (child mem₂) choice.1).2.1 _ choice.2
    cases spelled
    exact variant
  · have variant := (applied _ _ (child mem₃) alternatives.1).2.2 alternatives.2.1
    rw [alternatives.2.2] at variant
    exact variant

end SchemaModel
