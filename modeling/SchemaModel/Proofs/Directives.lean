import SchemaModel.Proofs.ByteOrder
import SchemaModel.Proofs.Enumerations

/-!
# The include directives of a model

Directives come from three sources: the descriptors of the nodes, the support for enumerations and
the support for variants.  They are kept in one ascending list.

* `Text.occursIn_iff` — when a text occurs in another;
* `Includes.mem_matching` — the directives that a descriptor needs;
* `Findings.includes_gather`, `Findings.hasVariant_gather` — what one node adds;
* `Findings.includes_foldl`, `Findings.hasVariant_foldl` — what a run leaves of it;
* `Resolution.mem_includes` — the directives of a resolution;
* `directives_are_needed` — the directives of a model.
-/

namespace SchemaModel

/-! ### Occurrences -/

namespace Text

theorem isInfix_iff {part whole : List Char} : isInfix part whole = true ↔ part <:+: whole := by
  induction whole with
  | nil => simp [isInfix]
  | cons c rest ih =>
    rw [isInfix, Bool.or_eq_true, ih, List.isPrefixOf_iff_prefix, List.infix_cons_iff]

theorem occursIn_iff {part whole : String} :
    occursIn part whole = true ↔ part.toList <:+: whole.toList := isInfix_iff

end Text

/-! ### The directives of a descriptor -/

namespace Includes

theorem overridden_nodup (overrides : List (String × String)) :
    Table.keys (overridden overrides) |>.Nodup := by
  have distinct : (Table.keys default).Nodup := by decide
  exact Table.keys_putAll_nodup distinct overrides

/-- A descriptor needs the directives of the names that occur in it. -/
theorem mem_matching {includes : Includes} (nodup : (Table.keys includes).Nodup)
    {descriptor directive : String} :
    directive ∈ includes.matching descriptor ↔
      ∃ name, includes.get? name = some directive ∧ name.toList <:+: descriptor.toList := by
  simp only [matching, List.mem_map, List.mem_filter]
  constructor
  · rintro ⟨⟨name, directive⟩, ⟨mem, occurs⟩, rfl⟩
    exact ⟨name, lookup_of_mem nodup mem, Text.occursIn_iff.1 occurs⟩
  · rintro ⟨name, found, occurs⟩
    exact ⟨(name, directive), ⟨mem_of_lookup found, Text.occursIn_iff.2 occurs⟩, rfl⟩

end Includes

/-! ### What a run leaves -/

theorem mem_insertAll {us ss : List String} {s : String} :
    s ∈ insertAll us ss ↔ s ∈ us ∨ s ∈ ss := by
  induction ss generalizing us with
  | nil => simp [insertAll]
  | cons t rest ih =>
    show s ∈ insertAll (insertAscending t us) rest ↔ _
    rw [ih, mem_insertAscending, List.mem_cons, or_assoc, or_left_comm]

theorem insertAscending_ascending {s : String} {us : List String} (h : us.Pairwise (· < ·)) :
    (insertAscending s us).Pairwise (· < ·) := by
  induction us with
  | nil => exact List.pairwise_singleton _ _
  | cons u rest ih =>
    obtain ⟨first, others⟩ := List.pairwise_cons.1 h
    rcases lt_trichotomy s u with below | rfl | above
    · rw [insertAscending_of_lt below]
      refine List.pairwise_cons.2 ⟨fun v mem => ?_, h⟩
      rcases List.mem_cons.1 mem with rfl | mem
      · exact below
      · exact below.trans (first v mem)
    · rwa [insertAscending_self]
    · rw [insertAscending_of_gt above]
      refine List.pairwise_cons.2 ⟨fun v mem => ?_, ih others⟩
      rcases mem_insertAscending.1 mem with rfl | mem
      · exact above
      · exact first v mem

theorem insertAll_ascending {us : List String} (h : us.Pairwise (· < ·)) (ss : List String) :
    (insertAll us ss).Pairwise (· < ·) := by
  induction ss generalizing us with
  | nil => exact h
  | cons s rest ih => exact ih (insertAscending_ascending h)

/-- The directives that a node calls for: those of the support that it needs and those of its
descriptor. -/
def Typed.directives (options : Options) (t : Typed) : List String :=
  (if t.isVariant then [options.helpers.variantInclude] else []) ++
    (if t.registration?.isSome then [options.helpers.enumInclude] else []) ++
    options.includes.matching t.descriptor

theorem Typed.mem_directives {options : Options} {t : Typed} {s : String} :
    s ∈ t.directives options ↔
      s ∈ options.includes.matching t.descriptor ∨
        (s = options.helpers.enumInclude ∧ t.registration?.isSome = true) ∨
        (s = options.helpers.variantInclude ∧ t.isVariant = true) := by
  rw [directives]
  cases t.isVariant <;> cases t.registration?.isSome <;> simp <;> tauto

namespace Findings

theorem hasVariant_gather (options : Options) (f : Findings) (t : Typed) :
    (f.gather options t).hasVariant = (f.hasVariant || t.isVariant) := by
  simp only [gather_eq, addIncludes_eq]
  cases t.isVariant <;> cases t.registration? <;> simp [addVariant, addEnum, addInclude]

theorem hasVariant_foldl (options : Options) (f : Findings) (ts : List Typed) :
    (ts.foldl (gather options) f).hasVariant = (f.hasVariant || ts.any Typed.isVariant) := by
  induction ts generalizing f with
  | nil => simp
  | cons t rest ih => rw [List.foldl_cons, ih, hasVariant_gather, List.any_cons, Bool.or_assoc]

/-- The directives of a run are those of its nodes, inserted one after the other. -/
theorem includes_gather (options : Options) (f : Findings) (t : Typed) :
    (f.gather options t).includes = insertAll f.includes (t.directives options) := by
  simp only [gather_eq, addIncludes_eq, Typed.directives]
  cases t.isVariant <;> cases t.registration? <;> rfl

theorem includes_foldl (options : Options) (f : Findings) (ts : List Typed) :
    (ts.foldl (gather options) f).includes =
      insertAll f.includes (ts.flatMap (Typed.directives options)) := by
  induction ts generalizing f with
  | nil => rfl
  | cons t rest ih =>
    rw [List.foldl_cons, ih, includes_gather, List.flatMap_cons, insertAll, insertAll, insertAll,
      List.foldl_append]

end Findings

theorem Resolution.mem_includes {options : Options} {root : Schema} {r : Resolution}
    (h : root.resolve options = .ok r) {s : String} :
    s ∈ r.findings.includes ↔
      (∃ t ∈ r.root.nodes, s ∈ options.includes.matching t.descriptor) ∨
        (s = options.helpers.enumInclude ∧ r.findings.hasEnum = true) ∨
        (s = options.helpers.variantInclude ∧ r.findings.hasVariant = true) := by
  rw [Resolution.findings_eq h, Findings.includes_foldl, Findings.hasEnum_foldl,
    Findings.hasVariant_foldl, mem_insertAll]
  simp only [List.mem_flatMap, Typed.mem_directives, List.not_mem_nil, false_or, Bool.false_or,
    List.any_eq_true]
  constructor
  · rintro ⟨t, mem, named | ⟨same, registers⟩ | ⟨same, variant⟩⟩
    · exact .inl ⟨t, mem, named⟩
    · exact .inr (.inl ⟨same, t, mem, registers⟩)
    · exact .inr (.inr ⟨same, t, mem, variant⟩)
  · rintro (⟨t, mem, named⟩ | ⟨same, t, mem, registers⟩ | ⟨same, t, mem, variant⟩)
    · exact ⟨t, mem, .inl named⟩
    · exact ⟨t, mem, .inr (.inl ⟨same, registers⟩)⟩
    · exact ⟨t, mem, .inr (.inr ⟨same, variant⟩)⟩

/-- **The directives of a model are those that its nodes call for**, in strictly ascending order of
their bytes.  A name of the target language calls for its directive wherever it occurs in the
descriptor of a node, the directive being the last that overrides it or else its default; and each
kind of support calls for its own. -/
theorem directives_are_needed (spellings : Spellings) (overrides : List (String × String))
    (helpers : Helpers) (root : Schema) (m : Model)
    (compiled : root.compile ⟨spellings, Includes.overridden overrides, helpers⟩ = .ok m) :
    (m.includes.Pairwise fun s t => s.toUTF8.data.toList < t.toUTF8.data.toList) ∧
    ∀ s, s ∈ m.includes ↔
      (∃ bs n d name, Walk Schema.UsedChild root bs n ∧ Rules.descriptor? spellings n = some d ∧
        name.toList <:+: d.toList ∧
        (overrides.reverse.lookup name).or (Includes.default.lookup name) = some s) ∨
      (s = "\"" ++ helpers.enumSource ++ "\"" ∧ m.hasEnum = true) ∨
      (s = "\"" ++ helpers.variantSource ++ "\"" ∧ m.hasVariant = true) := by
  obtain ⟨r, objects, resolved, -, rfl⟩ := Schema.compile_eq_ok.1 compiled
  have form := Resolution.isFormOf resolved
  refine ⟨?_, fun s => ?_⟩
  · have ascending : r.findings.includes.Pairwise (· < ·) := by
      rw [Resolution.findings_eq resolved, Findings.includes_foldl]
      exact insertAll_ascending List.Pairwise.nil _
    exact ascending.imp Text.lt_iff_bytes_lt.1
  · refine (Resolution.mem_includes resolved).trans (or_congr_left ?_)
    simp only [Includes.mem_matching (Includes.overridden_nodup overrides)]
    constructor
    · rintro ⟨t, mem, name, found, occurs⟩
      obtain ⟨bs, walk⟩ := Typed.mem_nodes.1 mem
      obtain ⟨n, walk', form'⟩ := form.walk walk
      exact ⟨bs, n, t.descriptor, name, walk', form'.descriptor_eq, occurs,
        (Table.get?_putAll _ overrides name).symm.trans found⟩
    · rintro ⟨bs, n, d, name, walk, described, occurs, found⟩
      obtain ⟨t, walk', form'⟩ := form.usedWalk walk
      have same : t.descriptor = d := Option.some.inj (form'.descriptor_eq.symm.trans described)
      exact ⟨t, Typed.mem_nodes.2 ⟨bs, walk'⟩, name,
        (Table.get?_putAll _ overrides name).trans found, same ▸ occurs⟩

/-- Overrides of the directives, one of them twice. -/
def twiceOverridden : List (String × String) :=
  [("Shade", "<a>"), ("std::vector", "<b>"), ("Shade", "<c>")]

theorem shades_directives :
    ∃ m, shades.compile ⟨Spellings.default, Includes.overridden twiceOverridden, {}⟩ = .ok m ∧
      "<c>" ∈ m.includes ∧ "<b>" ∈ m.includes ∧ "\"enum_conversion.hpp\"" ∈ m.includes ∧
      "<a>" ∉ m.includes := by
  obtain ⟨m, compiled, flag⟩ : ∃ m,
      shades.compile ⟨Spellings.default, Includes.overridden twiceOverridden, {}⟩ = .ok m ∧
        m.hasEnum = true := ⟨_, rfl, rfl⟩
  obtain ⟨-, needed⟩ := directives_are_needed Spellings.default twiceOverridden {} shades m compiled
  have root : Walk Schema.UsedChild shades [] shades := .here _
  refine ⟨m, compiled, (needed _).2 (.inl ?_), (needed _).2 (.inl ?_), (needed _).2 (.inr ?_), ?_⟩
  · exact ⟨[], shades, "Shades", "Shade", root, rfl, by decide, rfl⟩
  · obtain ⟨c, child, described⟩ : ∃ c, shades.UsedChild (.property "rest") c ∧
        Rules.descriptor? Spellings.default c = some "std::vector<Color>" :=
      ⟨_, List.mem_of_getElem? (i := 2) rfl, rfl⟩
    exact ⟨[.property "rest"], c, _, "std::vector", .down child (.here c), described, by decide,
      rfl⟩
  · exact .inl ⟨by decide, flag⟩
  · intro mem
    rcases (needed _).1 mem with ⟨bs, n, d, name, -, -, -, found⟩ | ⟨same, -⟩ | ⟨same, -⟩
    · have listed : (name, "<a>") ∈ Includes.overridden twiceOverridden :=
        mem_of_lookup ((Table.get?_putAll _ twiceOverridden name).trans found)
      have none : ∀ e ∈ Includes.overridden twiceOverridden, e.2 ≠ "<a>" := by decide
      exact none _ listed rfl
    · revert same
      decide
    · revert same
      decide

end SchemaModel
