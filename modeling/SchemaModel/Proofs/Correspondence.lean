import SchemaModel.Proofs.Definitions

/-!
# Typed trees that correspond

Two typed trees correspond if the same branches lead through them, to nodes that agree on all that
directs the search for definitions: the type, the declared names and the default value.  The search
then goes through both in step.  Descriptors do not direct it.

* `Typed.Correspondence` — relations between the nodes of such trees;
* `Typed.Correspondence.visitedChildren` — the search goes to related children in the same order;
* `Typed.Correspondence.emitted` — related nodes become definitions in the same order;
* `Typed.Correspondence.isSearchable` — where it succeeds in the one it succeeds in the other.
-/

namespace SchemaModel.Typed

/-- Related nodes agree on what directs the search for definitions, and their children in equal
places are related again. -/
structure Correspondence (R : Typed → Typed → Prop) : Prop where
  type_eq : ∀ {t t'}, R t t' → t'.schema.type = t.schema.type
  declaredFields_eq : ∀ {t t'}, R t t' → t'.schema.declaredFields = t.schema.declaredFields
  default_eq : ∀ {t t'}, R t t' → t'.schema.default = t.schema.default
  items : ∀ {t t'}, R t t' → Option.Rel R t.items t'.items
  prefixItems : ∀ {t t'}, R t t' → List.Forall₂ R t.prefixItems t'.prefixItems
  oneOf : ∀ {t t'}, R t t' → List.Forall₂ R t.oneOf t'.oneOf
  lookup : ∀ {t t'}, R t t' → ∀ name,
    Option.Rel R (t.properties.lookup name) (t'.properties.lookup name)

/-- Related nodes with the same label. -/
def InStep {α : Type} (R : Typed → Typed → Prop) (p p' : α × Typed) : Prop :=
  p.1 = p'.1 ∧ R p.2 p'.2

section InStep

variable {R : Typed → Typed → Prop}

theorem numbered_inStep {ts ts' : List Typed} (h : List.Forall₂ R ts ts') (branch : Nat → Branch)
    (i : Nat) :
    List.Forall₂ (InStep R) ((ts.zipIdx i).map fun p => (branch p.2, p.1))
      ((ts'.zipIdx i).map fun p => (branch p.2, p.1)) := by
  induction h generalizing i with
  | nil => exact .nil
  | cons related _ ih => exact .cons ⟨rfl, related⟩ (ih (i + 1))

theorem propertiesNamed_inStep {ps ps' : List (String × Typed)}
    (lookup : ∀ name, Option.Rel R (ps.lookup name) (ps'.lookup name)) (names : List String) :
    List.Forall₂ (InStep R) (propertiesNamed ps names) (propertiesNamed ps' names) := by
  induction names with
  | nil => exact .nil
  | cons name rest ih =>
    have own := lookup name
    rw [propertiesNamed_cons, propertiesNamed_cons]
    generalize ps.lookup name = x at own
    generalize ps'.lookup name = x' at own
    cases own with
    | none => exact ih
    | some related => exact .cons ⟨rfl, related⟩ ih

/-- Labels that are put in front keep related nodes in step. -/
theorem below_inStep {es es' : List (List Branch × Typed)} (h : List.Forall₂ (InStep R) es es')
    (b : Branch) :
    List.Forall₂ (InStep R) (es.map fun e => (b :: e.1, e.2))
      (es'.map fun e => (b :: e.1, e.2)) :=
  List.rel_map (fun _ _ related => ⟨congrArg (b :: ·) related.1, related.2⟩) h

end InStep

namespace Correspondence

variable {R : Typed → Typed → Prop} {t t' : Typed}

theorem isObject_eq (corr : Correspondence R) (h : R t t') :
    t'.schema.isObject = t.schema.isObject := by
  rw [Schema.isObject, Schema.isObject, corr.type_eq h]

theorem isArray_eq (corr : Correspondence R) (h : R t t') :
    t'.schema.isArray = t.schema.isArray := by
  rw [Schema.isArray, Schema.isArray, corr.type_eq h]

theorem declared_eq (corr : Correspondence R) (h : R t t') : t'.declared = t.declared := by
  rw [declared, declared, corr.declaredFields_eq h]

theorem isDefined_eq (corr : Correspondence R) (h : R t t') : t'.isDefined = t.isDefined := by
  rw [isDefined, isDefined, corr.declared_eq h, corr.isObject_eq h]

theorem literal?_eq (corr : Correspondence R) (h : R t t') : t'.literal? = t.literal? := by
  rw [literal?, literal?, corr.default_eq h]

theorem absent_eq (corr : Correspondence R) (h : R t t') (names : List String) :
    Definition.absentOf t'.properties names = Definition.absentOf t.properties names :=
  List.filter_congr fun name _ => Rel.isNone_eq (corr.lookup h name)

/-- **The search goes to related children, in the same order.** -/
theorem visitedChildren (corr : Correspondence R) (h : R t t') :
    List.Forall₂ (InStep R) t.visitedChildren t'.visitedChildren := by
  rw [Typed.visitedChildren, Typed.visitedChildren, corr.isObject_eq h, corr.isArray_eq h,
    corr.declared_eq h]
  split
  · exact List.rel_append (numbered_inStep (corr.oneOf h) .alternative 0)
      (propertiesNamed_inStep (corr.lookup h) t.declared)
  · split
    · have own := corr.items h
      generalize t.items = x at own
      generalize t'.items = x' at own
      cases own with
      | none => exact numbered_inStep (corr.prefixItems h) .prefixItem 0
      | some related => exact .cons ⟨rfl, related⟩ .nil
    · exact .nil

/-- **Related nodes become definitions, in the same order.** -/
theorem emitted (corr : Correspondence R) (h : R t t') :
    List.Forall₂ (InStep R) t.emitted t'.emitted := by
  induction t using Typed.induction generalizing t' with
  | step t ih =>
    have each : ∀ p ∈ t.visitedChildren, ∀ c', R p.2 c' →
        List.Forall₂ (InStep R) p.2.emitted c'.emitted :=
      fun p visited c' related => ih p.1 p.2 (Visits.child visited) related
    have children := corr.visitedChildren h
    rw [emitted_eq, emitted_eq, corr.isDefined_eq h]
    refine List.rel_append ?_ ?_
    · generalize t.visitedChildren = cs at children each
      generalize t'.visitedChildren = cs' at children
      induction children with
      | nil => exact .nil
      | @cons p p' _ _ related _ ih =>
        obtain ⟨b, c⟩ := p
        obtain ⟨b', c'⟩ := p'
        obtain ⟨rfl, related⟩ : b = b' ∧ R c c' := related
        have first := below_inStep (each (b, c) List.mem_cons_self c' related) b
        exact List.rel_append first (ih fun p mem => each p (List.mem_cons_of_mem _ mem))
    · cases t.isDefined with
      | true => exact .cons ⟨rfl, h⟩ .nil
      | false => exact .nil

theorem isFine (corr : Correspondence R) (h : R t t') (fine : t.IsFine) : t'.IsFine := by
  refine ⟨fun v hv => fine.expressible v ?_, fun defined name mem => ?_⟩
  · rwa [← corr.default_eq h]
  · rw [corr.isDefined_eq h] at defined
    rw [corr.declared_eq h]
    refine fine.declares defined name (by_contra fun absent => ?_)
    have same := Rel.isNone_eq (corr.lookup h name)
    rw [lookup_eq_none.2 absent, Option.isNone_none, Option.isNone_iff_eq_none] at same
    exact lookup_eq_none.1 same mem

/-- **Nothing stands against the search in the one if nothing does in the other.** -/
theorem isSearchable (corr : Correspondence R) (h : R t t') (searchable : t.IsSearchable) :
    t'.IsSearchable := by
  induction t using Typed.induction generalizing t' with
  | step t ih =>
    obtain ⟨fine, below⟩ := isSearchable_iff.1 searchable
    refine isSearchable_iff.2 ⟨corr.isFine h fine, fun p' visited' => ?_⟩
    obtain ⟨i, hi⟩ := List.mem_iff_getElem?.1 visited'
    obtain ⟨p, hp, -, related⟩ := Forall₂.getElem?_right (corr.visitedChildren h) hi
    have visited := List.mem_of_getElem? hp
    exact ih p.1 p.2 (Visits.child visited) related (below p visited)

end Correspondence

end SchemaModel.Typed
