import SchemaModel.Proofs.LookUps

/-!
# The error that the resolver reports

A tree resolves unless one of its nodes is at fault: the node lies too deep, or it needs a type name
that has no spelling.  The faults of a tree can be listed without resolving anything, a node's depth
first, then the faults of the children that feed its descriptor, then its own names from left to
right, then the faults of its properties.  The resolver reports the first fault of this list, and
it has a result exactly if the list is empty.

* `Schema.ownNames` — the type names that a node needs besides the generic types;
* `Schema.faults` — all faults of a tree, in the order of the traversal;
* `Schema.mem_faults` — these are the faults of the nodes that used children lead to;
* `Typed.error?_resolveNode` — the resolver ends with the first of them;
* `resolver_reports_first_fault` — when a document resolves, and which error it gives otherwise.
-/

namespace SchemaModel

open Outcome

/-! ### Names without a spelling -/

namespace Spellings

/-- Those of the given names that have no spelling. -/
def unspelled (spellings : Spellings) (names : List String) : List String :=
  names.filter fun name => (spellings.get? name).isNone

theorem mem_unspelled {spellings : Spellings} {names : List String} {name : String} :
    name ∈ spellings.unspelled names ↔ name ∈ names ∧ spellings.get? name = none := by
  rw [unspelled, List.mem_filter, Option.isNone_iff_eq_none]

theorem unspelled_append (spellings : Spellings) (names names' : List String) :
    spellings.unspelled (names ++ names') =
      spellings.unspelled names ++ spellings.unspelled names' :=
  List.filter_append names names'

theorem unspelled_generics {spellings : Spellings} (covers : spellings.CoversGenerics)
    {names : List String} (generic : ∀ name ∈ names, name ∈ ["array", "tuple", "variant"]) :
    spellings.unspelled names = [] := by
  refine List.eq_nil_iff_forall_not_mem.2 fun name mem => ?_
  obtain ⟨listed, missing⟩ := mem_unspelled.1 mem
  exact covers name (generic name listed) missing

end Spellings

namespace Shape

variable (spellings : Spellings)

theorem error?_spell (name : String) :
    error? (spell spellings name) = (spellings.unspelled [name]).head? := by
  rw [spell, Spellings.unspelled]
  cases h : spellings.get? name <;> simp [h, error?]

theorem error?_spellAll (names : List String) :
    error? (spellAll spellings names) = (spellings.unspelled names).head? := by
  induction names with
  | nil => rfl
  | cons name rest ih =>
    rw [spellAll, ← List.singleton_append, Spellings.unspelled_append]
    refine error?_bind (error?_spell spellings name) fun first _ => ?_
    rw [← List.append_nil (spellings.unspelled rest)]
    exact error?_bind ih fun _ _ => rfl

/-- **A shape lacks a descriptor because of the first of its names without a spelling.** -/
theorem error?_descriptor (shape : Shape) :
    error? (shape.descriptor spellings) = (spellings.unspelled shape.names).head? := by
  have generic : ∀ (name : String) (arguments : List String),
      error? (do return apply (← spell spellings name) arguments : Except String String) =
        (spellings.unspelled [name]).head? := by
    intro name arguments
    rw [← List.append_nil (spellings.unspelled [name])]
    exact error?_bind (error?_spell spellings name) fun _ _ => rfl
  cases shape with
  | choice names =>
    rw [Shape.names, Spellings.unspelled_append]
    exact error?_bind (error?_spellAll spellings names) fun arguments _ =>
      generic "variant" arguments
  | plain name => exact error?_spell spellings name
  | _ => exact generic _ _

end Shape

/-! ### The faults of one node -/

namespace Schema

/-- The type names that a node needs besides the generic types: the names of a choice, or its type
name if no rule for arrays, tuples and variants applies.  An explicit type needs none. -/
def ownNames (s : Schema) : List String :=
  match s.targetType, s.type with
  | some _, _ => []
  | none, .choice names => names
  | none, .name n =>
    if n = "array" ∧ (s.items.isSome ∨ s.prefixItems.isSome) ∨ n = "object" ∧ s.oneOf.isSome then []
    else [n]

/-- Apart from these names, a node looks up generic types only. -/
theorem lookups_eq (s : Schema) : ∃ generics, s.lookups = s.ownNames ++ generics ∧
    ∀ generic ∈ generics, generic ∈ ["array", "tuple", "variant"] := by
  rw [lookups, ownNames]
  cases s.targetType with
  | some explicit => exact ⟨[], rfl, List.forall_mem_nil _⟩
  | none =>
    cases s.type with
    | choice names => exact ⟨["variant"], rfl, by simp⟩
    | name n =>
      by_cases array : n = "array"
      · subst array
        cases s.items with
        | some item => exact ⟨["array"], by simp, by simp⟩
        | none =>
          cases s.prefixItems with
          | some elements => exact ⟨["tuple"], by simp, by simp⟩
          | none => exact ⟨[], by simp, by simp⟩
      · by_cases object : n = "object"
        · subst object
          cases s.oneOf with
          | some alternatives => exact ⟨["variant"], by simp, by simp⟩
          | none => exact ⟨[], by simp, by simp⟩
        · exact ⟨[], by simp [array, object], by simp⟩

/-- The fault of a node that lies too deep. -/
def depthFaults (l : Location) (depth : Nat) : List CompileError :=
  if Nesting.maxNodeDepth < depth then [.nestingTooDeep l Nesting.maxNodeDepth] else []

/-- The names that a node needs and that have no spelling, from left to right. -/
def nameFaults (spellings : Spellings) (l : Location) (s : Schema) : List CompileError :=
  (spellings.unspelled s.ownNames).map (.unknownType l)

theorem mem_depthFaults {l : Location} {depth : Nat} {e : CompileError} :
    e ∈ depthFaults l depth ↔
      Nesting.maxNodeDepth < depth ∧ e = .nestingTooDeep l Nesting.maxNodeDepth := by
  rw [depthFaults]
  split <;> simp_all

theorem mem_nameFaults {spellings : Spellings} {l : Location} {s : Schema} {e : CompileError} :
    e ∈ nameFaults spellings l s ↔
      ∃ name ∈ s.ownNames, spellings.get? name = none ∧ e = .unknownType l name := by
  rw [nameFaults, List.mem_map]
  constructor
  · rintro ⟨name, mem, rfl⟩
    obtain ⟨own, missing⟩ := Spellings.mem_unspelled.1 mem
    exact ⟨name, own, missing, rfl⟩
  · rintro ⟨name, own, missing, rfl⟩
    exact ⟨name, Spellings.mem_unspelled.2 ⟨own, missing⟩, rfl⟩

/-! ### The faults of a tree -/

/-- The children that a node resolves before it describes itself, in order. -/
def feedingChildren (s : Schema) : List (Branch × Schema) :=
  (s.usedItems.toList.map fun c => (.items, c)) ++
    (s.usedPrefixItems.zipIdx.map fun p => (.prefixItem p.2, p.1)) ++
    (s.usedOneOf.zipIdx.map fun p => (.alternative p.2, p.1))

/-- The children that a node resolves after it has described itself, in order. -/
def propertyChildren (s : Schema) : List (Branch × Schema) :=
  s.properties.map fun p => (.property p.1, p.2)

theorem usedChild_iff {s c : Schema} {b : Branch} :
    s.UsedChild b c ↔ (b, c) ∈ s.feedingChildren ∨ (b, c) ∈ s.propertyChildren := by
  have numbered : ∀ {ss : List Schema} {i : Nat}, (c, i) ∈ ss.zipIdx ↔ ss[i]? = some c :=
    List.mk_mem_zipIdx_iff_getElem?
  cases b <;> simp [UsedChild, feedingChildren, propertyChildren, numbered]

/-- The faults of a tree whose root lies at a place and a depth, in the order of the traversal. -/
def faults (spellings : Spellings) (l : Location) (depth : Nat) (s : Schema) :
    List CompileError :=
  depthFaults l depth ++
    (s.feedingChildren.attach.flatMap fun ⟨(b, c), _⟩ =>
      c.faults spellings (l.along [b]) (depth + 1)) ++
    s.nameFaults spellings l ++
    s.propertyChildren.attach.flatMap fun ⟨(b, c), _⟩ =>
      c.faults spellings (l.along [b]) (depth + 1)
termination_by sizeOf s
decreasing_by
  · rename_i feeding
    exact sizeOf_lt_of_child (usedChild_iff.2 (.inl feeding)).child
  · rename_i property
    exact sizeOf_lt_of_child (usedChild_iff.2 (.inr property)).child

/-- The faults of the trees below a node, child by child. -/
def faultsBelow (spellings : Spellings) (l : Location) (depth : Nat)
    (children : List (Branch × Schema)) : List CompileError :=
  children.flatMap fun p => p.2.faults spellings (l.along [p.1]) (depth + 1)

theorem faults_eq (spellings : Spellings) (l : Location) (depth : Nat) (s : Schema) :
    s.faults spellings l depth =
      depthFaults l depth ++ faultsBelow spellings l depth s.feedingChildren ++
        s.nameFaults spellings l ++ faultsBelow spellings l depth s.propertyChildren := by
  have unattached : ∀ children : List (Branch × Schema),
      (children.attach.flatMap fun ⟨(b, c), _⟩ => c.faults spellings (l.along [b]) (depth + 1)) =
        faultsBelow spellings l depth children := fun children =>
    List.flatMap_subtype (fun _ _ => rfl) |>.trans (by rw [List.unattach_attach, faultsBelow])
  rw [faults, unattached, unattached]

theorem mem_faultsBelow {spellings : Spellings} {l : Location} {depth : Nat}
    {children : List (Branch × Schema)} {e : CompileError} :
    e ∈ faultsBelow spellings l depth children ↔
      ∃ b c, (b, c) ∈ children ∧ e ∈ c.faults spellings (l.along [b]) (depth + 1) := by
  simp [faultsBelow]

theorem mem_faults_iff_child {spellings : Spellings} {l : Location} {depth : Nat} {s : Schema}
    {e : CompileError} :
    e ∈ s.faults spellings l depth ↔
      (e ∈ depthFaults l depth ∨ e ∈ s.nameFaults spellings l) ∨
        ∃ b c, s.UsedChild b c ∧ e ∈ c.faults spellings (l.along [b]) (depth + 1) := by
  rw [faults_eq]
  simp only [List.mem_append, mem_faultsBelow, usedChild_iff]
  constructor
  · rintro (((deep | ⟨b, c, feeding, below⟩) | unspelled) | ⟨b, c, property, below⟩)
    · exact .inl (.inl deep)
    · exact .inr ⟨b, c, .inl feeding, below⟩
    · exact .inl (.inr unspelled)
    · exact .inr ⟨b, c, .inr property, below⟩
  · rintro ((deep | unspelled) | ⟨b, c, feeding | property, below⟩)
    · exact .inl (.inl (.inl deep))
    · exact .inl (.inr unspelled)
    · exact .inl (.inl (.inr ⟨b, c, feeding, below⟩))
    · exact .inr ⟨b, c, property, below⟩

/-- **The faults of a tree are those of the nodes that used children lead to**, at their places. -/
theorem mem_faults {spellings : Spellings} {l : Location} {depth : Nat} {s : Schema}
    {e : CompileError} :
    e ∈ s.faults spellings l depth ↔ ∃ bs n, Walk UsedChild s bs n ∧
      (e ∈ depthFaults (l.along bs) (depth + bs.length) ∨
        e ∈ n.nameFaults spellings (l.along bs)) := by
  constructor
  · intro mem
    induction s using Schema.induction generalizing l depth with
    | step s ih =>
      rcases mem_faults_iff_child.1 mem with own | ⟨b, c, child, below⟩
      · exact ⟨[], s, .here s, by rwa [Location.along_nil]⟩
      · obtain ⟨bs, n, walk, own⟩ := ih b c child.child below
        refine ⟨b :: bs, n, .down child walk, ?_⟩
        rwa [Location.along_cons, List.length_cons, Nat.add_comm bs.length, ← Nat.add_assoc]
  · rintro ⟨bs, n, walk, own⟩
    induction walk generalizing l depth with
    | here s =>
      rw [Location.along_nil] at own
      exact mem_faults_iff_child.2 (.inl own)
    | @down _ _ _ b bs child _ ih =>
      rw [Location.along_cons, List.length_cons, Nat.add_comm bs.length, ← Nat.add_assoc] at own
      exact mem_faults_iff_child.2 (.inr ⟨b, _, child, ih own⟩)

theorem depthFaults_eq_nil {l : Location} {depth : Nat} :
    depthFaults l depth = [] ↔ depth ≤ Nesting.maxNodeDepth := by
  rw [depthFaults]
  split <;> simp_all

theorem nameFaults_eq_nil {spellings : Spellings} {l : Location} {s : Schema} :
    s.nameFaults spellings l = [] ↔ ∀ name ∈ s.ownNames, spellings.get? name ≠ none := by
  simp [nameFaults, Spellings.unspelled, List.filter_eq_nil_iff]

/-- A tree has no fault if none of the nodes that used children lead to has one. -/
theorem faults_eq_nil {spellings : Spellings} {s : Schema} :
    s.faults spellings .root 0 = [] ↔
      ∀ bs n, Walk UsedChild s bs n → bs.length ≤ Nesting.maxNodeDepth ∧
        ∀ name ∈ n.ownNames, spellings.get? name ≠ none := by
  simp only [List.eq_nil_iff_forall_not_mem, mem_faults, not_exists, not_and, not_or, Nat.zero_add]
  constructor
  · intro faultless bs n walk
    have own := fun e => faultless e bs n walk
    exact ⟨depthFaults_eq_nil.1 (List.eq_nil_iff_forall_not_mem.2 fun e => (own e).1),
      nameFaults_eq_nil.1 (List.eq_nil_iff_forall_not_mem.2 fun e => (own e).2)⟩
  · intro fine e bs n walk
    obtain ⟨shallow, spelled⟩ := fine bs n walk
    rw [depthFaults_eq_nil.2 shallow, nameFaults_eq_nil.2 spelled]
    exact ⟨List.not_mem_nil, List.not_mem_nil⟩

end Schema

/-! ### The first fault -/

namespace Typed

variable {options : Options}

/-- A node has no descriptor because of the first name that it needs and that has no spelling. -/
theorem error?_describe (covers : options.spellings.CoversGenerics) {s : Schema}
    {items : Option Typed} (same : items.isSome = s.usedItems.isSome) (l : Location)
    (prefixItems oneOf : List Typed) :
    error? (describe options l s items prefixItems oneOf) =
      (s.nameFaults options.spellings l).head? := by
  cases untargeted : s.targetType with
  | some explicit =>
    rw [describe, untargeted, Schema.nameFaults, Schema.ownNames, untargeted]
    rfl
  | none =>
    obtain ⟨generics, lookups, generic⟩ := s.lookups_eq
    have failing := Shape.error?_descriptor options.spellings (shapeOf s items prefixItems oneOf)
    rw [names_shapeOf untargeted same, lookups, Spellings.unspelled_append,
      Spellings.unspelled_generics covers generic, List.append_nil] at failing
    rw [Schema.nameFaults, List.head?_map, ← failing, describe, untargeted, shapeOf]
    simp only
    split <;> simp_all [error?]

/-- Wherever a node lies and whatever has been found before it, its resolution ends with the first
fault of its tree. -/
def EndsWithFirstFault (options : Options) (s : Schema) : Prop :=
  ∀ l depth f, error? (resolveNode options l depth s f) =
    (s.faults options.spellings l depth).head?

variable {l : Location} {depth : Nat}

theorem error?_resolveItem {s : Option Schema}
    (each : ∀ c, s = some c → EndsWithFirstFault options c) (f : Findings) :
    error? (resolveItem options (l.key "items") (depth + 1) s f) =
      (Schema.faultsBelow options.spellings l depth (s.toList.map fun c => (.items, c))).head? := by
  cases s with
  | none => rfl
  | some c =>
    rw [← Location.along_items]
    exact error?_bind (each c rfl _ _ f) fun _ _ => rfl

theorem error?_resolveList {branch : Nat → Branch} {place : Location}
    (places : ∀ i, l.along [branch i] = place.index i) {ss : List Schema}
    (each : ∀ s ∈ ss, EndsWithFirstFault options s) (i : Nat) (f : Findings) :
    error? (resolveList options place (depth + 1) i ss f) =
      (Schema.faultsBelow options.spellings l depth
        ((ss.zipIdx i).map fun p => (branch p.2, p.1))).head? := by
  induction ss generalizing i f with
  | nil => rfl
  | cons s rest ih =>
    have first := each s List.mem_cons_self (l.along [branch i]) (depth + 1) f
    have others := ih fun s mem => each s (List.mem_cons_of_mem _ mem)
    rw [places] at first
    rw [resolveList, List.zipIdx_cons, List.map_cons, Schema.faultsBelow, List.flatMap_cons, places]
    refine error?_bind first fun p _ => ?_
    rw [← List.append_nil (List.flatMap _ _)]
    exact error?_bind (others (i + 1) p.2) fun _ _ => rfl

theorem error?_resolveProperties {ps : List (String × Schema)}
    (each : ∀ name s, (name, s) ∈ ps → EndsWithFirstFault options s) (f : Findings) :
    error? (resolveProperties options (l.key "properties") (depth + 1) ps f) =
      (Schema.faultsBelow options.spellings l depth
        (ps.map fun p => (.property p.1, p.2))).head? := by
  induction ps generalizing f with
  | nil => rfl
  | cons p rest ih =>
    obtain ⟨name, s⟩ := p
    have first := each name s List.mem_cons_self (l.along [.property name]) (depth + 1) f
    have others := ih fun name s mem => each name s (List.mem_cons_of_mem _ mem)
    rw [Location.along_property] at first
    rw [resolveProperties, List.map_cons, Schema.faultsBelow, List.flatMap_cons,
      Location.along_property]
    refine error?_bind first fun q _ => ?_
    rw [← List.append_nil (List.flatMap _ _)]
    exact error?_bind (others q.2) fun _ _ => rfl

/-- **The resolver ends with the first fault of a tree**, and has a result if there is none. -/
theorem error?_resolveNode (covers : options.spellings.CoversGenerics) (s : Schema) :
    EndsWithFirstFault options s := by
  induction s using Schema.induction with
  | step s ih =>
    intro l depth f
    have used : ∀ c, (∃ b, s.UsedChild b c) → EndsWithFirstFault options c :=
      fun c ⟨b, child⟩ => ih b c child.child
    rw [resolveNode_eq, Schema.faults_eq, Schema.depthFaults]
    split
    · rfl
    have feeding : Schema.faultsBelow options.spellings l depth s.feedingChildren =
        Schema.faultsBelow options.spellings l depth
            (s.usedItems.toList.map fun c => (.items, c)) ++
          (Schema.faultsBelow options.spellings l depth
              (s.usedPrefixItems.zipIdx.map fun p => (.prefixItem p.2, p.1)) ++
            Schema.faultsBelow options.spellings l depth
              (s.usedOneOf.zipIdx.map fun p => (.alternative p.2, p.1))) := by
      simp only [Schema.feedingChildren, Schema.faultsBelow, List.flatMap_append, List.append_assoc]
    rw [feeding, List.nil_append]
    simp only [List.append_assoc]
    refine error?_bind (error?_resolveItem (fun c hc => used c ⟨.items, hc⟩) f) fun p hitems => ?_
    refine error?_bind (error?_resolveList (fun i => l.along_prefixItem i)
      (fun c hc => used c (Schema.exists_usedChild_of_mem_prefixItems hc)) 0 _) fun q _ => ?_
    refine error?_bind (error?_resolveList (fun i => l.along_alternative i)
      (fun c hc => used c (Schema.exists_usedChild_of_mem_oneOf hc)) 0 _) fun r _ => ?_
    refine error?_bind (error?_describe covers (isSome_of_resolveItem hitems) l _ _) fun d _ => ?_
    rw [← List.append_nil (Schema.faultsBelow _ _ _ _)]
    exact error?_bind (error?_resolveProperties (fun name c hc => used c ⟨.property name, hc⟩) _)
      fun _ _ => rfl

end Typed

/-- **A document resolves exactly if no node that used children lead to lies too deep or needs a
name without a spelling; otherwise the error is the first fault of the document.**  The generic
types never lack a spelling, since overrides do not remove the defaults. -/
theorem resolver_reports_first_fault (overrides : List (String × String)) (includes : Includes)
    (helpers : Helpers) (root : Schema) :
    let options : Options := ⟨Spellings.overridden overrides, includes, helpers⟩
    ((∃ r, root.resolve options = .ok r) ↔
      ∀ bs n, Walk Schema.UsedChild root bs n → bs.length ≤ Nesting.maxNodeDepth ∧
        ∀ name ∈ n.ownNames, options.spellings.get? name ≠ none) ∧
    (∀ e, root.resolve options = .error e ↔
      (root.faults options.spellings .root 0).head? = some e) ∧
    ∀ generic ∈ ["array", "tuple", "variant"], ∀ l,
      root.resolve options ≠ .error (.unknownType l generic) := by
  intro options
  have covers : options.spellings.CoversGenerics := Spellings.overridden_coversGenerics overrides
  have first : error? (root.resolve options) = (root.faults options.spellings .root 0).head? := by
    rw [Schema.resolve, error?_map]
    exact Typed.error?_resolveNode covers root .root 0 {}
  have reported : ∀ e, root.resolve options = .error e ↔
      (root.faults options.spellings .root 0).head? = some e := by
    intro e
    rw [← first, error?_eq_some]
  refine ⟨?_, reported, fun generic mem l failed => ?_⟩
  · rw [← error?_eq_none, first, List.head?_eq_none_iff, Schema.faults_eq_nil]
  · have fault := List.mem_of_mem_head? ((reported _).1 failed)
    obtain ⟨bs, n, walk, deep | unspelled⟩ := Schema.mem_faults.1 fault
    · cases (Schema.mem_depthFaults.1 deep).2
    · obtain ⟨name, -, missing, same⟩ := Schema.mem_nameFaults.1 unspelled
      cases same
      exact covers generic mem missing

/-- An object with a list of choices and a further property, where three names have no spelling of
their own. -/
def calendar : Schema :=
  { Schema.ofTypeName "object" with
    properties := [
      ("days", { Schema.ofTypeName "array" with
        items := some { Schema.ofTypeName "" with type := .choice ["string", "date", "time"] } }),
      ("year", Schema.ofTypeName "era")]
    targetType := some "Calendar" }

theorem calendar_first_fault :
    let l := Location.root.along [.property "days", .items]
    calendar.resolve ⟨Spellings.overridden [("date", "Date")], [], {}⟩ =
        .error (.unknownType l "time") ∧
      (calendar.faults (Spellings.overridden [("date", "Date")]) .root 0).head? =
        some (.unknownType l "time") ∧
      ¬ ∃ r, calendar.resolve ⟨Spellings.overridden [("date", "Date")], [], {}⟩ = .ok r := by
  intro l
  have failed : calendar.resolve ⟨Spellings.overridden [("date", "Date")], [], {}⟩ =
      .error (.unknownType l "time") := rfl
  have reports := resolver_reports_first_fault [("date", "Date")] [] {} calendar
  refine ⟨failed, (reports.2.1 _).1 failed, ?_⟩
  rintro ⟨r, resolved⟩
  cases resolved.symm.trans failed

end SchemaModel
