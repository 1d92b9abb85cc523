import SchemaModel.Proofs.AcceptedModels
import SchemaModel.Proofs.Directives

/-!
# The support that a model calls for

A model says with two flags whether it needs the support for enumerations and the support for
variants.  Each flag is set exactly if some node of the resolved tree has a use for it, which can be
told from the node itself; the sources and the directives of the support follow the flags.

* `Shape.isVariant_iff` — which nodes are variants by their shape;
* `Resolution.exists_node_iff` — the nodes of a resolved tree are those that used children lead to;
* `Resolution.hasEnum_iff`, `Resolution.hasVariant_iff` — when a flag is set;
* `Typed.IsFormOf.variant_applied` — a variant of its own making is described as one;
* `flags_tell_uses` — the flags of a model, and what goes with them.
-/

namespace SchemaModel

open Outcome

/-! ### Nodes that are variants -/

/-- A choice between type names and an object with alternatives are variants, whatever their
children are. -/
theorem Shape.isVariant_iff {s : Schema} {items : Option String}
    {elements alternatives : List String} :
    (Shape.of s items elements alternatives).isVariant = true ↔
      (∃ names, s.type = .choice names) ∨ s.type = .name "object" ∧ s.oneOf.isSome = true := by
  rw [Shape.of]
  cases s.type with
  | choice names => simp [isVariant]
  | name n =>
    by_cases array : n = "array"
    · subst array
      cases items <;> cases s.prefixItems <;> simp [isVariant]
    · by_cases object : n = "object"
      · subst object
        cases s.oneOf <;> simp [isVariant]
      · simp [array, object, isVariant]

theorem Typed.isVariant_iff {t : Typed} :
    t.isVariant = true ↔ t.schema.targetType = none ∧
      ((∃ names, t.schema.type = .choice names) ∨
        t.schema.type = .name "object" ∧ t.schema.oneOf.isSome = true) := by
  rw [isVariant, Bool.and_eq_true, Option.isNone_iff_eq_none, shape, shapeOf, Shape.isVariant_iff]

/-- The descriptor of a variant applies the spelling of variants. -/
theorem Typed.IsFormOf.variant_applied {options : Options} {t : Typed} {s : Schema}
    (form : t.IsFormOf options s) (variant : t.isVariant = true) :
    ∃ spelling arguments, options.spellings.get? "variant" = some spelling ∧
      t.descriptor = Shape.apply spelling arguments := by
  obtain ⟨untargeted, shaped⟩ := Bool.and_eq_true_iff.1 variant
  rw [form.schema_eq, Option.isNone_iff_eq_none] at untargeted
  have described := form.shape_descriptor untargeted
  cases hshape : t.shape with
  | choice names =>
    rw [hshape] at described
    obtain ⟨arguments, -, described⟩ := bind_eq_ok.1 described
    obtain ⟨spelling, spelled, applied⟩ := bind_eq_ok.1 described
    exact ⟨spelling, arguments, Rules.spell_eq_ok.1 spelled, (Except.ok.inj applied).symm⟩
  | variant alternatives =>
    rw [hshape] at described
    obtain ⟨spelling, spelled, applied⟩ := bind_eq_ok.1 described
    exact ⟨spelling, alternatives, Rules.spell_eq_ok.1 spelled, (Except.ok.inj applied).symm⟩
  | _ =>
    rw [hshape] at shaped
    cases shaped

/-! ### When a flag is set -/

namespace Resolution

variable {options : Options} {root : Schema} {r : Resolution}

/-- Some node of a resolved tree has a property of schema nodes exactly if some node that used
children lead to has it. -/
theorem exists_node_iff (resolved : root.resolve options = .ok r) (P : Schema → Prop) :
    (∃ t ∈ r.root.nodes, P t.schema) ↔ ∃ bs n, Walk Schema.UsedChild root bs n ∧ P n := by
  have form := isFormOf resolved
  constructor
  · rintro ⟨t, mem, holds⟩
    obtain ⟨bs, walk⟩ := Typed.mem_nodes.1 mem
    obtain ⟨n, walk', form'⟩ := form.walk walk
    exact ⟨bs, n, walk', form'.schema_eq ▸ holds⟩
  · rintro ⟨bs, n, walk, holds⟩
    obtain ⟨t, walk', form'⟩ := form.usedWalk walk
    exact ⟨t, Typed.mem_nodes.2 ⟨bs, walk'⟩, form'.schema_eq ▸ holds⟩

theorem hasEnum_iff_registers (resolved : root.resolve options = .ok r) :
    r.findings.hasEnum = true ↔ ∃ t ∈ r.root.nodes, t.registration?.isSome = true := by
  rw [findings_eq resolved, Findings.hasEnum_foldl, Bool.false_or, List.any_eq_true]

/-- **The flag for enumerations is set exactly if a string node lists values.** -/
theorem hasEnum_iff (resolved : root.resolve options = .ok r) :
    r.findings.hasEnum = true ↔ ∃ bs n, Walk Schema.UsedChild root bs n ∧
      n.type = .name "string" ∧ n.enum.isSome = true := by
  have registers : ∀ t : Typed, t.registration?.isSome = true ↔
      t.schema.type = .name "string" ∧ t.schema.enum.isSome = true := by
    intro t
    simp [Option.isSome_iff_exists, Typed.registration?_eq_some]
  simp only [hasEnum_iff_registers resolved, registers]
  exact exists_node_iff resolved fun n => n.type = .name "string" ∧ n.enum.isSome = true

/-- **The flag for enumerations is set exactly if there are any.** -/
theorem hasEnum_iff_enums (resolved : root.resolve options = .ok r) :
    r.findings.hasEnum = true ↔ r.findings.enums ≠ [] := by
  rw [hasEnum_iff_registers resolved, enums_eq resolved, Ne, Table.ofEntries_eq_nil,
    Typed.registrations, List.filterMap_eq_nil_iff]
  simp only [Option.isSome_iff_ne_none, not_forall, exists_prop, Ne]

/-- **The flag for variants is set exactly if a node without an explicit type is a variant.** -/
theorem hasVariant_iff (resolved : root.resolve options = .ok r) :
    r.findings.hasVariant = true ↔ ∃ bs n, Walk Schema.UsedChild root bs n ∧
      n.targetType = none ∧
      ((∃ names, n.type = .choice names) ∨ n.type = .name "object" ∧ n.oneOf.isSome = true) := by
  rw [findings_eq resolved, Findings.hasVariant_foldl, Bool.false_or, List.any_eq_true]
  simp only [Typed.isVariant_iff]
  exact exists_node_iff resolved fun n => n.targetType = none ∧
    ((∃ names, n.type = .choice names) ∨ n.type = .name "object" ∧ n.oneOf.isSome = true)

end Resolution

/-- **The flags of a model tell what its nodes use.**  Enumerations are flagged exactly if a string
node lists values, and that is exactly if the model has any; variants are flagged exactly if a node
without an explicit type is a choice between type names or an object with alternatives.  The support
sources are those of the flags, each flag comes with the directive of its source, and if spellings
and directives are the defaults, variants come with the directive of the standard type. -/
theorem flags_tell_uses (options : Options) (root : Schema) (m : Model)
    (compiled : root.compile options = .ok m) :
    ((m.hasEnum = true ↔ ∃ bs n, Walk Schema.UsedChild root bs n ∧
        n.type = .name "string" ∧ n.enum.isSome = true) ∧
      (m.hasEnum = true ↔ m.enums ≠ [])) ∧
    (m.hasVariant = true ↔ ∃ bs n, Walk Schema.UsedChild root bs n ∧ n.targetType = none ∧
      ((∃ names, n.type = .choice names) ∨ n.type = .name "object" ∧ n.oneOf.isSome = true)) ∧
    m.helperSources = (if m.hasEnum then [options.helpers.enumSource] else []) ++
      (if m.hasVariant then [options.helpers.variantSource] else []) ∧
    (m.hasEnum = true → "\"" ++ options.helpers.enumSource ++ "\"" ∈ m.includes) ∧
    (m.hasVariant = true → "\"" ++ options.helpers.variantSource ++ "\"" ∈ m.includes) ∧
    (options.spellings = Spellings.default → options.includes = Includes.default →
      m.hasVariant = true → "<variant>" ∈ m.includes) := by
  obtain ⟨r, objects, resolved, -, rfl⟩ := Schema.compile_eq_ok.1 compiled
  have needed := @Resolution.mem_includes options root r resolved
  refine ⟨⟨Resolution.hasEnum_iff resolved, Resolution.hasEnum_iff_enums resolved⟩,
    Resolution.hasVariant_iff resolved, rfl, fun flag => needed.2 (.inr (.inl ⟨rfl, flag⟩)),
    fun flag => needed.2 (.inr (.inr ⟨rfl, flag⟩)), fun spelled included flag => ?_⟩
  rw [Resolution.findings_eq resolved, Findings.hasVariant_foldl, Bool.false_or,
    List.any_eq_true] at flag
  obtain ⟨t, mem, variant⟩ := flag
  obtain ⟨bs, walk⟩ := Typed.mem_nodes.1 mem
  obtain ⟨n, -, form⟩ := (Resolution.isFormOf resolved).walk walk
  obtain ⟨spelling, arguments, found, applied⟩ := form.variant_applied variant
  have distinct : (Table.keys Includes.default).Nodup := by decide
  rw [spelled] at found
  obtain rfl : "std::variant" = spelling := Option.some.inj found
  refine needed.2 (.inl ⟨t, mem, ?_⟩)
  rw [included, Includes.mem_matching distinct, applied]
  refine ⟨"std::variant", rfl, List.IsPrefix.isInfix ?_⟩
  rw [Shape.apply, String.append_assoc, String.append_assoc, String.toList_append]
  exact List.prefix_append _ _

/-- An object whose explicit type hides that it is a variant, with a property that is one. -/
def probe : Schema :=
  { Schema.ofTypeName "object" with
    targetType := some "Probe"
    oneOf := some [{ Schema.ofTypeName "string" with
      targetType := some "State", enum := some ["on", "off"] }]
    properties := [
      ("value", { Schema.ofTypeName "" with type := .choice ["number", "string"] })] }

theorem probe_flags :
    ∃ m, probe.compile {} = .ok m ∧ m.hasEnum = true ∧ m.hasVariant = true ∧
      m.helperSources = ["enum_conversion.hpp", "json_utils.hpp"] ∧ m.enums ≠ [] ∧
      "\"enum_conversion.hpp\"" ∈ m.includes ∧ "<variant>" ∈ m.includes := by
  obtain ⟨m, compiled⟩ : ∃ m, probe.compile {} = .ok m := ⟨_, rfl⟩
  obtain ⟨⟨enumerates, listed⟩, varies, sources, enumSource, -, standard⟩ :=
    flags_tell_uses {} probe m compiled
  obtain ⟨state, first⟩ : ∃ c, probe.UsedChild (.alternative 0) c ∧ c.type = .name "string" ∧
      c.enum.isSome = true := ⟨_, rfl, rfl, rfl⟩
  obtain ⟨value, second, choice⟩ : ∃ c, probe.UsedChild (.property "value") c ∧
      c.targetType = none ∧ ∃ names, c.type = .choice names :=
    ⟨_, List.mem_of_getElem? (i := 0) rfl, rfl, _, rfl⟩
  have hasEnum : m.hasEnum = true :=
    enumerates.2 ⟨_, state, .down first.1 (.here state), first.2⟩
  have hasVariant : m.hasVariant = true :=
    varies.2 ⟨_, value, .down second (.here value), choice.1, .inl choice.2⟩
  refine ⟨m, compiled, hasEnum, hasVariant, ?_, listed.1 hasEnum, enumSource hasEnum,
    standard rfl rfl hasVariant⟩
  rw [sources, hasEnum, hasVariant]
  rfl

end SchemaModel
