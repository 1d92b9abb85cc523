import SchemaModel.Definition
import SchemaModel.Proofs.Resolution
import SchemaModel.Proofs.Tables

/-!
# Where errors come from

The resolver and the search for definitions pass on the first error that they meet.  Both are taken
apart node by node: an error is the node's own or that of a child one branch further.  For the
resolver it follows that every error arises at the node at the end of a walk through used children.

* `Spellings.CoversGenerics` — the generic types have spellings, as with all overridden defaults;
* `Shape.descriptor_eq_error` — a shape lacks a descriptor only if a name in it has no spelling;
* `Typed.resolveNode_eq_error` — why a node does not resolve;
* `Typed.exists_origin_of_resolveNode_error` — the node at which an error of the resolver arises;
* `Definition.visit_eq_error` — why the search for definitions fails at a node.
-/

namespace SchemaModel

open Outcome

/-! ### Spellings that override the defaults -/

namespace Spellings

/-- The generic types have spellings. -/
def CoversGenerics (spellings : Spellings) : Prop :=
  ∀ generic ∈ ["array", "tuple", "variant"], spellings.get? generic ≠ none

/-- An override may replace a spelling but never removes one. -/
theorem overridden_coversGenerics (overrides : List (String × String)) :
    (overridden overrides).CoversGenerics := by
  intro generic mem
  have spelled : default.get? generic ≠ none := by
    revert generic
    decide
  rw [overridden, Table.get?_putAll, Ne, Option.or_eq_none_iff]
  exact fun missing => spelled missing.2

end Spellings

/-! ### Look-ups that fail -/

namespace Shape

variable {spellings : Spellings}

theorem spell_eq_error {name name' : String} (h : spell spellings name = .error name') :
    name' = name ∧ spellings.get? name = none := by
  unfold spell at h
  split at h
  · cases h
  · rename_i absent
    cases h
    exact ⟨rfl, absent⟩

theorem spellAll_eq_error {names : List String} {name : String}
    (h : spellAll spellings names = .error name) : name ∈ names ∧ spellings.get? name = none := by
  induction names with
  | nil => cases h
  | cons first rest ih =>
    rcases bind_eq_error.1 h with here | ⟨_, -, later⟩
    · obtain ⟨rfl, absent⟩ := spell_eq_error here
      exact ⟨List.mem_cons_self, absent⟩
    · rcases bind_eq_error.1 later with later | ⟨_, -, done⟩
      · obtain ⟨mem, absent⟩ := ih later
        exact ⟨List.mem_cons_of_mem _ mem, absent⟩
      · cases done

theorem spell_generic_ne_error (covers : spellings.CoversGenerics) {generic name : String}
    (mem : generic ∈ ["array", "tuple", "variant"]) : spell spellings generic ≠ .error name :=
  fun h => covers generic mem (spell_eq_error h).2

/-- The name without a spelling is one that the shape names itself. -/
theorem descriptor_eq_error (covers : spellings.CoversGenerics) {shape : Shape} {name : String}
    (h : shape.descriptor spellings = .error name) :
    spellings.get? name = none ∧
      (shape = .plain name ∨ ∃ names, shape = .choice names ∧ name ∈ names) := by
  have generic : ∀ {g : String} {k : String → Except String String},
      g ∈ ["array", "tuple", "variant"] → (∀ spelling, k spelling ≠ .error name) →
        spell spellings g >>= k ≠ .error name := by
    intro g k mem total h
    rcases bind_eq_error.1 h with failed | ⟨spelling, -, failed⟩
    · exact spell_generic_ne_error covers mem failed
    · exact total spelling failed
  cases shape with
  | choice names =>
    rcases bind_eq_error.1 h with failed | ⟨_, -, failed⟩
    · obtain ⟨mem, absent⟩ := spellAll_eq_error failed
      exact ⟨absent, .inr ⟨names, rfl, mem⟩⟩
    · exact absurd failed (generic (by simp) fun _ same => by cases same)
  | plain n =>
    obtain ⟨rfl, absent⟩ := spell_eq_error h
    exact ⟨absent, .inl rfl⟩
  | _ => exact absurd h (generic (by simp) fun _ same => by cases same)

theorem type_of_choice {s : Schema} {items : Option String}
    {elements alternatives names : List String}
    (h : of s items elements alternatives = .choice names) : s.type = .choice names := by
  unfold of at h
  cases htype : s.type with
  | choice names' =>
    rw [htype] at h
    cases h
    rfl
  | name n =>
    rw [htype] at h
    simp only at h
    split at h <;> (try split at h) <;> cases h

theorem type_of_plain {s : Schema} {items : Option String} {elements alternatives : List String}
    {n : String} (h : of s items elements alternatives = .plain n) : s.type = .name n := by
  unfold of at h
  cases htype : s.type with
  | choice names =>
    rw [htype] at h
    cases h
  | name n' =>
    rw [htype] at h
    simp only at h
    split at h <;> (try split at h) <;> cases h <;> rfl

end Shape

/-! ### Where an error of the resolver comes from -/

namespace Typed

variable {options : Options} {l : Location} {e : CompileError}

theorem resolveList_eq_error {depth i : Nat} {ss : List Schema} {f : Findings}
    (h : resolveList options l depth i ss f = .error e) :
    ∃ j c f', ss[j]? = some c ∧ resolveNode options (l.index (i + j)) depth c f' = .error e := by
  induction ss generalizing i f with
  | nil => cases h
  | cons s ss ih =>
    rw [resolveList] at h
    rcases bind_eq_error.1 h with failed | ⟨⟨t, f₁⟩, -, h⟩
    · exact ⟨0, s, f, rfl, failed⟩
    · rcases bind_eq_error.1 h with failed | ⟨_, -, done⟩
      · obtain ⟨j, c, f', hj, failed⟩ := ih failed
        refine ⟨j + 1, c, f', hj, ?_⟩
        rwa [show i + (j + 1) = i + 1 + j by omega]
      · cases done

theorem resolveProperties_eq_error {depth : Nat} {ps : List (String × Schema)} {f : Findings}
    (h : resolveProperties options l depth ps f = .error e) :
    ∃ name c f', (name, c) ∈ ps ∧ resolveNode options (l.key name) depth c f' = .error e := by
  induction ps generalizing f with
  | nil => cases h
  | cons p ps ih =>
    obtain ⟨name, s⟩ := p
    rw [resolveProperties] at h
    rcases bind_eq_error.1 h with failed | ⟨⟨t, f₁⟩, -, h⟩
    · exact ⟨name, s, f, List.mem_cons_self, failed⟩
    · rcases bind_eq_error.1 h with failed | ⟨_, -, done⟩
      · obtain ⟨name', c, f', mem, failed⟩ := ih failed
        exact ⟨name', c, f', List.mem_cons_of_mem _ mem, failed⟩
      · cases done

theorem describe_eq_error {s : Schema} {items : Option Typed} {prefixItems oneOf : List Typed}
    (h : describe options l s items prefixItems oneOf = .error e) :
    s.targetType = none ∧ ∃ name, e = .unknownType l name ∧
      (shapeOf s items prefixItems oneOf).descriptor options.spellings = .error name := by
  unfold describe at h
  split at h
  · cases h
  · rename_i untargeted
    simp only at h
    split at h
    · cases h
    · rename_i name failed
      cases h
      exact ⟨untargeted, name, rfl, failed⟩

/-- A node with some typed children has no descriptor; it has typed items if its type uses items. -/
def IsUndescribed (options : Options) (l : Location) (s : Schema) (e : CompileError) : Prop :=
  ∃ items prefixItems oneOf, items.isSome = s.usedItems.isSome ∧
    describe options l s items prefixItems oneOf = .error e

/-- **A node fails to resolve because it lies too deep, because a used child fails to, one branch
further and one level deeper, or because it has no descriptor.** -/
theorem resolveNode_eq_error {depth : Nat} {s : Schema} {f : Findings}
    (h : resolveNode options l depth s f = .error e) :
    (Nesting.maxNodeDepth < depth ∧ e = .nestingTooDeep l Nesting.maxNodeDepth) ∨
      depth ≤ Nesting.maxNodeDepth ∧
        ((∃ b c f', s.UsedChild b c ∧
            resolveNode options (l.along [b]) (depth + 1) c f' = .error e) ∨
          IsUndescribed options l s e) := by
  rw [resolveNode_eq] at h
  split at h
  · rename_i deep
    cases h
    exact .inl ⟨deep, rfl⟩
  · rename_i shallow
    refine .inr ⟨Nat.not_lt.1 shallow, ?_⟩
    rcases bind_eq_error.1 h with failed | ⟨⟨items, f₁⟩, hitems, h⟩
    · cases hs : s.usedItems with
      | none =>
        rw [hs] at failed
        cases failed
      | some c =>
        rw [hs, resolveItem] at failed
        rcases bind_eq_error.1 failed with failed | ⟨_, -, done⟩
        · rw [← Location.along_items] at failed
          exact .inl ⟨.items, c, f, hs, failed⟩
        · cases done
    rcases bind_eq_error.1 h with failed | ⟨⟨prefixItems, f₂⟩, -, h⟩
    · obtain ⟨j, c, f', hj, failed⟩ := resolveList_eq_error failed
      rw [Nat.zero_add, ← Location.along_prefixItem] at failed
      exact .inl ⟨.prefixItem j, c, f', hj, failed⟩
    rcases bind_eq_error.1 h with failed | ⟨⟨oneOf, f₃⟩, -, h⟩
    · obtain ⟨j, c, f', hj, failed⟩ := resolveList_eq_error failed
      rw [Nat.zero_add, ← Location.along_alternative] at failed
      exact .inl ⟨.alternative j, c, f', hj, failed⟩
    rcases bind_eq_error.1 h with failed | ⟨⟨descriptor, isVariant⟩, -, h⟩
    · exact .inr ⟨items, prefixItems, oneOf, isSome_of_resolveItem hitems, failed⟩
    rcases bind_eq_error.1 h with failed | ⟨_, -, done⟩
    · obtain ⟨name, c, f', mem, failed⟩ := resolveProperties_eq_error failed
      rw [← Location.along_property] at failed
      exact .inl ⟨.property name, c, f', mem, failed⟩
    · cases done

/-- **An error of the resolver arises at the node at its place**: either the node is the first on
its walk to lie too deep, or it has no descriptor. -/
theorem exists_origin_of_resolveNode_error {depth : Nat} {s : Schema} {f : Findings}
    (shallow : depth ≤ Nesting.maxNodeDepth + 1)
    (h : resolveNode options l depth s f = .error e) :
    ∃ bs n, Walk Schema.UsedChild s bs n ∧
      ((depth + bs.length = Nesting.maxNodeDepth + 1 ∧
          e = .nestingTooDeep (l.along bs) Nesting.maxNodeDepth) ∨
        IsUndescribed options (l.along bs) n e) := by
  induction s using Schema.induction generalizing l depth f with
  | step s ih =>
    rcases resolveNode_eq_error h with ⟨deep, rfl⟩ | ⟨shallow, below | own⟩
    · refine ⟨[], s, .here s, .inl ⟨Nat.le_antisymm shallow deep, ?_⟩⟩
      rw [Location.along_nil]
    · obtain ⟨b, c, f', child, failed⟩ := below
      obtain ⟨bs, n, walk, origin⟩ := ih b c child.child (Nat.succ_le_succ shallow) failed
      refine ⟨b :: bs, n, .down child walk, ?_⟩
      rwa [Location.along_cons, List.length_cons, Nat.add_comm bs.length, ← Nat.add_assoc]
    · refine ⟨[], s, .here s, .inr ?_⟩
      rwa [Location.along_nil]

end Typed

theorem Schema.exists_origin_of_resolve_error {options : Options} {root : Schema}
    {e : CompileError} (h : root.resolve options = .error e) :
    ∃ bs n, Walk Schema.UsedChild root bs n ∧
      ((bs.length = Nesting.maxNodeDepth + 1 ∧
          e = .nestingTooDeep (Location.root.along bs) Nesting.maxNodeDepth) ∨
        Typed.IsUndescribed options (Location.root.along bs) n e) := by
  obtain ⟨bs, n, walk, origin⟩ :=
    Typed.exists_origin_of_resolveNode_error (Nat.zero_le _) (map_eq_error.1 h)
  rw [Nat.zero_add] at origin
  exact ⟨bs, n, walk, origin⟩

/-! ### Where an error of the search for definitions comes from -/

namespace Definition

variable {l : Location} {e : CompileError}

theorem defaultLiteral_eq_error {dflt : Option Json} (h : defaultLiteral l dflt = .error e) :
    ∃ v literal, dflt = some v ∧ v.toLiteral = .error literal ∧
      e = .unsupportedLiteral l literal := by
  unfold defaultLiteral at h
  split at h
  · cases h
  · rename_i v
    split at h
    · cases h
    · rename_i literal failed
      cases h
      exact ⟨v, literal, rfl, failed, rfl⟩

theorem members_eq_error {visits : List (String × PropertyVisit)} {declared : List String}
    (h : members visits declared = .error e) :
    ∃ name v, (name, v) ∈ visits ∧ v.outcome = .error e := by
  induction declared with
  | nil => cases h
  | cons name rest ih =>
    rw [members] at h
    split at h
    · rcases bind_eq_error.1 h with failed | ⟨_, -, done⟩
      · exact ih failed
      · cases done
    · rename_i v found
      rcases bind_eq_error.1 h with failed | ⟨_, -, h⟩
      · exact ⟨name, v, mem_of_lookup found, failed⟩
      · rcases bind_eq_error.1 h with failed | ⟨_, -, done⟩
        · exact ih failed
        · cases done

theorem ofObject_eq_error {descriptor : String} {declared : List String}
    {visits : List (String × PropertyVisit)}
    (h : ofObject l descriptor declared visits = .error e) :
    (∃ name, name ∈ visits.map Prod.fst ∧ name ∉ declared ∧
        e = .invalidFieldList l name declared) ∨
      ∃ name v, (name, v) ∈ visits ∧ v.outcome = .error e := by
  unfold ofObject at h
  split at h
  · rename_i m found
    cases h
    have undeclared : m.1 ∉ declared := by simpa using List.find?_some found
    exact .inl ⟨m.1, List.mem_map_of_mem (List.mem_of_find?_eq_some found), undeclared, rfl⟩
  · rcases bind_eq_error.1 h with failed | ⟨_, -, done⟩
    · exact .inr (members_eq_error failed)
    · cases done

theorem visitList_eq_error {i : Nat} {ts : List Typed} (h : visitList l i ts = .error e) :
    ∃ j c, ts[j]? = some c ∧ visit (l.index (i + j)) c = .error e := by
  induction ts generalizing i with
  | nil => cases h
  | cons t ts ih =>
    rw [visitList] at h
    rcases bind_eq_error.1 h with failed | ⟨_, -, h⟩
    · exact ⟨0, t, rfl, failed⟩
    · rcases bind_eq_error.1 h with failed | ⟨_, -, done⟩
      · obtain ⟨j, c, hj, failed⟩ := ih failed
        refine ⟨j + 1, c, hj, ?_⟩
        rwa [show i + (j + 1) = i + 1 + j by omega]
      · cases done

theorem visitProperties_eq (l : Location) (ps : List (String × Typed)) :
    visitProperties l ps = ps.map fun p => (p.1, ⟨p.2.descriptor, visit (l.key p.1) p.2⟩) := by
  induction ps with
  | nil => rfl
  | cons p ps ih => rw [visitProperties, ih, List.map_cons]

theorem visitProperties_names (l : Location) (ps : List (String × Typed)) :
    (visitProperties l ps).map Prod.fst = ps.map Prod.fst := by
  rw [visitProperties_eq, List.map_map]
  rfl

theorem exists_of_mem_visitProperties {ps : List (String × Typed)} {name : String}
    {v : PropertyVisit} (h : (name, v) ∈ visitProperties l ps) :
    ∃ c, (name, c) ∈ ps ∧ v.outcome = visit (l.key name) c := by
  rw [visitProperties_eq] at h
  obtain ⟨⟨name, c⟩, mem, same⟩ := List.mem_map.1 h
  cases same
  exact ⟨c, mem, rfl⟩

/-- **The search fails at a node because its default has no expression, because a child fails, one
branch further, or because a property is not declared.** -/
theorem visit_eq_error {t : Typed} (h : visit l t = .error e) :
    (∃ v literal, t.schema.default = some v ∧ v.toLiteral = .error literal ∧
        e = .unsupportedLiteral l literal) ∨
      (∃ b c, t.Child b c ∧ visit (l.along [b]) c = .error e) ∨
      ∃ name declared, t.schema.isObject = true ∧ t.schema.declaredFields = some declared ∧
        declared ≠ [] ∧ name ∈ t.properties.map Prod.fst ∧ name ∉ declared ∧
        e = .invalidFieldList l name declared := by
  obtain ⟨schema, descriptor, items, prefixItems, oneOf, properties⟩ := t
  rw [visit] at h
  rcases bind_eq_error.1 h with failed | ⟨dflt, -, h⟩
  · exact .inl (defaultLiteral_eq_error failed)
  refine .inr ?_
  split at h
  · rename_i object
    rcases bind_eq_error.1 h with failed | ⟨alternatives, -, h⟩
    · obtain ⟨j, c, hj, failed⟩ := visitList_eq_error failed
      rw [Nat.zero_add, ← Location.along_alternative] at failed
      exact .inl ⟨.alternative j, c, hj, failed⟩
    split at h
    · rename_i first others declares
      rcases bind_eq_error.1 h with failed | ⟨_, -, done⟩
      · rcases ofObject_eq_error failed with ⟨name, mem, undeclared, rfl⟩ | ⟨name, v, mem, failed⟩
        · rw [visitProperties_names] at mem
          exact .inr ⟨name, _, object, declares, List.cons_ne_nil _ _, mem,
            undeclared, rfl⟩
        · obtain ⟨c, child, outcome⟩ := exists_of_mem_visitProperties mem
          rw [outcome, ← Location.along_property] at failed
          exact .inl ⟨.property name, c, child, failed⟩
      · cases done
    · cases h
  · split at h
    · cases items with
      | some item =>
        rcases bind_eq_error.1 h with failed | ⟨_, -, done⟩
        · rw [← Location.along_items] at failed
          exact .inl ⟨.items, item, rfl, failed⟩
        · cases done
      | none =>
        rcases bind_eq_error.1 h with failed | ⟨_, -, done⟩
        · obtain ⟨j, c, hj, failed⟩ := visitList_eq_error failed
          rw [Nat.zero_add, ← Location.along_prefixItem] at failed
          exact .inl ⟨.prefixItem j, c, hj, failed⟩
        · cases done
    · cases h

end Definition

end SchemaModel
