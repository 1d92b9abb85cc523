import SchemaModel.Proofs.Walk

/-!
# The order in which nodes become definitions

The search for definitions walks through a resolved tree.  At an object it visits the alternatives,
then the declared properties in declared order, and then the node itself becomes a definition; at
an array it visits the items or else the prefix items.

* `Typed.visitedChildren` — the children that the walk visits, in order;
* `Typed.emitted` — the nodes that become definitions, in order, with the walks that lead to them;
* `Typed.mem_emitted` — which nodes these are;
* `Typed.emitted_block` — what a visited node contributes stands together;
* `Typed.emitted_childrenFirst`, `Typed.emitted_before` — a node comes after all nodes below it.
-/

namespace SchemaModel

/-! ### The walk through a resolved tree -/

namespace Typed

/-- The names that a node declares as its fields. -/
def declared (t : Typed) : List String := t.schema.declaredFields.getD []

/-- The properties under given names, in the order of the names. -/
def propertiesNamed (properties : List (String × Typed)) (names : List String) :
    List (Branch × Typed) :=
  names.filterMap fun name => (properties.lookup name).map fun c => (.property name, c)

/-- The children that the search for definitions visits, in order. -/
def visitedChildren (t : Typed) : List (Branch × Typed) :=
  if t.schema.isObject then
    (t.oneOf.zipIdx.map fun p => (.alternative p.2, p.1)) ++ propertiesNamed t.properties t.declared
  else if t.schema.isArray then
    match t.items with
    | some c => [(.items, c)]
    | none => t.prefixItems.zipIdx.map fun p => (.prefixItem p.2, p.1)
  else []

/-- The search for definitions goes from a node to a child. -/
def Visits (t : Typed) (b : Branch) (c : Typed) : Prop := (b, c) ∈ t.visitedChildren

/-- A node becomes a definition if it is an object that declares fields. -/
def isDefined (t : Typed) : Bool := t.schema.isObject && !t.declared.isEmpty

theorem isDefined_iff {t : Typed} :
    t.isDefined = true ↔ t.schema.isObject = true ∧
      ∃ declared, t.schema.declaredFields = some declared ∧ declared ≠ [] := by
  rw [isDefined, declared]
  cases t.schema.declaredFields <;> simp

theorem propertiesNamed_cons (properties : List (String × Typed)) (name : String)
    (rest : List String) :
    propertiesNamed properties (name :: rest) =
      match properties.lookup name with
      | none => propertiesNamed properties rest
      | some c => (.property name, c) :: propertiesNamed properties rest := by
  cases h : properties.lookup name <;> simp [propertiesNamed, h]

theorem mem_propertiesNamed {properties : List (String × Typed)} {names : List String} {b : Branch}
    {c : Typed} : (b, c) ∈ propertiesNamed properties names ↔
      ∃ name ∈ names, b = .property name ∧ properties.lookup name = some c := by
  simp only [propertiesNamed, List.mem_filterMap, Option.map_eq_some_iff, Prod.mk.injEq]
  constructor
  · rintro ⟨name, mem, c, found, rfl, rfl⟩
    exact ⟨name, mem, rfl, found⟩
  · rintro ⟨name, mem, rfl, found⟩
    exact ⟨name, mem, c, found, rfl, rfl⟩

theorem Visits.child {t c : Typed} {b : Branch} (h : t.Visits b c) : t.Child b c := by
  have numbered : ∀ {ts : List Typed} {i : Nat} {c : Typed}, (c, i) ∈ ts.zipIdx →
      ts[i]? = some c := fun mem => List.mk_mem_zipIdx_iff_getElem?.1 mem
  rw [Visits, visitedChildren] at h
  split at h
  · rcases List.mem_append.1 h with mem | mem
    · obtain ⟨⟨c', i⟩, listed, same⟩ := List.mem_map.1 mem
      cases same
      exact numbered listed
    · obtain ⟨name, -, rfl, found⟩ := mem_propertiesNamed.1 mem
      exact mem_of_lookup found
  · split at h
    · cases hitems : t.items with
      | some item =>
        rw [hitems] at h
        cases List.mem_singleton.1 h
        exact hitems
      | none =>
        rw [hitems] at h
        obtain ⟨⟨c', i⟩, listed, same⟩ := List.mem_map.1 h
        cases same
        exact numbered listed
    · cases h

/-- The nodes that become definitions, each with the walk to it, in the order in which the search
for definitions comes to them: first those in the children, then the node itself. -/
def emitted (t : Typed) : List (List Branch × Typed) :=
  (t.visitedChildren.attach.flatMap fun ⟨(b, c), _⟩ => c.emitted.map fun e => (b :: e.1, e.2)) ++
    if t.isDefined then [([], t)] else []
termination_by sizeOf t
decreasing_by
  rename_i visited
  exact sizeOf_lt_of_child (Visits.child visited)

theorem emitted_eq (t : Typed) :
    t.emitted = (t.visitedChildren.flatMap fun p => p.2.emitted.map fun e => (p.1 :: e.1, e.2)) ++
      if t.isDefined then [([], t)] else [] := by
  rw [emitted]
  congr 1
  exact List.flatMap_subtype (fun _ _ => rfl) |>.trans (by rw [List.unattach_attach])

/-- What becomes a definition below a child comes to the walk through the child. -/
theorem mem_emitted_below {t : Typed} {e : List Branch × Typed} :
    (e ∈ t.visitedChildren.flatMap fun p => p.2.emitted.map fun e => (p.1 :: e.1, e.2)) ↔
      ∃ b c bs, t.Visits b c ∧ (bs, e.2) ∈ c.emitted ∧ e.1 = b :: bs := by
  obtain ⟨cs, u⟩ := e
  simp only [List.mem_flatMap, List.mem_map, Prod.exists, Prod.mk.injEq]
  constructor
  · rintro ⟨b, c, visited, bs, _, mem, rfl, rfl⟩
    exact ⟨b, c, bs, visited, mem, rfl⟩
  · rintro ⟨b, c, bs, visited, mem, rfl⟩
    exact ⟨b, c, visited, bs, u, mem, rfl, rfl⟩

/-- **The nodes that become definitions are those on the walks of the search that declare
fields.** -/
theorem mem_emitted {t : Typed} {bs : List Branch} {u : Typed} :
    (bs, u) ∈ t.emitted ↔ Walk Visits t bs u ∧ u.isDefined = true := by
  induction t using Typed.induction generalizing bs u with
  | step t ih =>
    rw [emitted_eq, List.mem_append, mem_emitted_below]
    constructor
    · rintro (⟨b, c, cs, visited, mem, rfl⟩ | own)
      · obtain ⟨walk, defined⟩ := (ih b c visited.child).1 mem
        exact ⟨.down visited walk, defined⟩
      · cases defined : t.isDefined with
        | false => simp [defined] at own
        | true =>
          simp only [defined, if_true, List.mem_singleton, Prod.mk.injEq] at own
          obtain ⟨rfl, rfl⟩ := own
          exact ⟨.here u, defined⟩
    · rintro ⟨walk, defined⟩
      cases walk with
      | here => exact .inr (by simp [defined])
      | down visited walk =>
        exact .inl ⟨_, _, _, visited, (ih _ _ visited.child).2 ⟨walk, defined⟩, rfl⟩

/-- **What becomes a definition from a visited node on stands together.** -/
theorem emitted_block {t u : Typed} {bs : List Branch} (walk : Walk Visits t bs u) :
    ∃ before after,
      t.emitted = before ++ (u.emitted.map fun e => (bs ++ e.1, e.2)) ++ after := by
  induction walk with
  | here t => exact ⟨[], [], by simp⟩
  | @down t c u b bs visited walk ih =>
    obtain ⟨before, after, split⟩ := ih
    obtain ⟨sooner, later, listed⟩ := List.append_of_mem visited
    refine ⟨(sooner.flatMap fun p => p.2.emitted.map fun e => (p.1 :: e.1, e.2)) ++
        before.map fun e => (b :: e.1, e.2),
      (after.map fun e => (b :: e.1, e.2)) ++
        (later.flatMap fun p => p.2.emitted.map fun e => (p.1 :: e.1, e.2)) ++
        if t.isDefined then [([], t)] else [], ?_⟩
    rw [emitted_eq, listed, List.flatMap_append, List.flatMap_cons, split]
    simp only [List.map_append, List.map_map, Function.comp_def, List.append_assoc,
      List.cons_append]

theorem propertiesNamed_sublist (properties : List (String × Typed)) (names : List String) :
    ((propertiesNamed properties names).map Prod.fst).Sublist (names.map .property) := by
  induction names with
  | nil => exact .slnil
  | cons name rest ih =>
    rw [propertiesNamed_cons]
    cases properties.lookup name with
    | none => exact .cons _ ih
    | some c => exact .cons_cons _ ih

/-- If no name is declared twice, no child is visited twice. -/
theorem visitedChildren_nodup {t : Typed} (distinct : t.declared.Nodup) :
    (t.visitedChildren.map Prod.fst).Nodup := by
  have numbered : ∀ (toBranch : Nat → Branch) (ts : List Typed), toBranch.Injective →
      ((ts.zipIdx.map fun p => (toBranch p.2, p.1)).map Prod.fst).Nodup := by
    intro toBranch ts injective
    rw [List.map_map, show (Prod.fst ∘ fun p : Typed × Nat => (toBranch p.2, p.1)) =
      toBranch ∘ Prod.snd from rfl, ← List.map_map, List.zipIdx_map_snd]
    exact (List.nodup_range' _ Nat.one_pos).map injective
  rw [visitedChildren]
  split
  · rw [List.map_append]
    refine List.Nodup.append (numbered _ _ fun i j same => by cases same; rfl) ?_ ?_
    · exact (distinct.map fun x y same => by cases same; rfl).sublist
        (propertiesNamed_sublist _ _)
    · -- alternatives and properties are different kinds of branches
      intro b alternative property
      obtain ⟨⟨b, c⟩, mem, rfl⟩ := List.mem_map.1 property
      obtain ⟨name, -, rfl, -⟩ := mem_propertiesNamed.1 mem
      simp at alternative
  · split
    · cases t.items with
      | some c => exact List.nodup_singleton _
      | none => exact numbered _ _ fun i j same => by cases same; rfl
    · exact List.nodup_nil

/-- **No node stands after a node above it, and none stands twice**, if no name is declared
twice. -/
theorem emitted_childrenFirst {t : Typed}
    (distinct : ∀ bs u, Walk Child t bs u → u.declared.Nodup) :
    t.emitted.Pairwise fun e e' => ¬ e.1 <+: e'.1 := by
  induction t using Typed.induction with
  | step t ih =>
    rw [emitted_eq, List.pairwise_append, List.pairwise_flatMap]
    refine ⟨⟨?_, ?_⟩, ?_, ?_⟩
    · -- two nodes below the same child
      rintro ⟨b, c⟩ visited
      have below := ih b c (Visits.child visited) fun bs u walk =>
        distinct (b :: bs) u (.down (Visits.child visited) walk)
      refine List.pairwise_map.2 (below.imp fun apart within => apart ?_)
      exact (List.cons_prefix_cons.1 within).2
    · -- two nodes below different children
      have branches := List.pairwise_map.1 (visitedChildren_nodup (distinct [] t (.here t)))
      refine branches.imp fun apart e mem e' mem' within => apart ?_
      obtain ⟨_, -, rfl⟩ := List.mem_map.1 mem
      obtain ⟨_, -, rfl⟩ := List.mem_map.1 mem'
      exact (List.cons_prefix_cons.1 within).1
    · cases t.isDefined with
      | false => exact .nil
      | true => exact List.pairwise_singleton _ _
    · intro e mem e' mem' within
      obtain ⟨b, c, bs, -, -, branches⟩ := mem_emitted_below.1 mem
      have root : e'.1 = [] := by
        cases defined : t.isDefined with
        | false => simp [defined] at mem'
        | true => simp_all
      rw [root, branches] at within
      cases List.prefix_nil.1 within

theorem emitted_walks_nodup {t : Typed} (distinct : ∀ bs u, Walk Child t bs u → u.declared.Nodup) :
    (t.emitted.map Prod.fst).Nodup := by
  refine List.pairwise_map.2 ((emitted_childrenFirst distinct).imp ?_)
  intro e e' apart same
  exact apart (same ▸ List.prefix_rfl)

/-- A node strictly below another stands before it. -/
theorem emitted_before {t : Typed} (distinct : ∀ bs u, Walk Child t bs u → u.declared.Nodup)
    {i j : Nat} {e e' : List Branch × Typed} (hi : t.emitted[i]? = some e)
    (hj : t.emitted[j]? = some e') (above : e.1 <+: e'.1) (apart : e.1 ≠ e'.1) : j < i := by
  have order := emitted_childrenFirst distinct
  by_contra notBefore
  rcases Nat.lt_or_eq_of_le (Nat.le_of_not_lt notBefore) with before | same
  · obtain ⟨hi', rfl⟩ := List.getElem?_eq_some_iff.1 hi
    obtain ⟨hj', rfl⟩ := List.getElem?_eq_some_iff.1 hj
    exact List.pairwise_iff_getElem.1 order i j hi' hj' before above
  · rw [same, hj] at hi
    cases hi
    exact apart rfl

end Typed

end SchemaModel
