import SchemaModel.Proofs.Pruning

/-!
# The error that the search for definitions reports

A node that becomes a definition has to declare all its properties.  The search checks a node after
it has gone through the alternatives and before it goes through the declared properties, so the
nodes that are checked can be listed in the order of the checks.  As long as default values have
expressions, a search fails exactly if one of these nodes misses a property, and it reports the
first that does.

* `Typed.checked` — the nodes that are checked, in order; `Typed.mem_checked` — which nodes these
  are;
* `Typed.undeclared?` — the property for which a node fails its check;
* `Typed.misfits` — the errors of all checks that fail, in order;
* `Definition.error?_visit` — a search ends with the first of them;
* `search_reports_first_misfit` — when a search fails, with which error, and what hides an error.
-/

namespace SchemaModel

open Outcome

/-! ### The nodes that are checked -/

namespace Typed

/-- The children that the search visits before it checks a node: the alternatives of an object, and
all that it visits of an array. -/
def visitedBefore (t : Typed) : List (Branch × Typed) :=
  if t.schema.isObject then t.oneOf.zipIdx.map fun p => (.alternative p.2, p.1)
  else t.visitedChildren

/-- The children that the search visits after it has checked a node: the declared properties of an
object, in declared order. -/
def visitedAfter (t : Typed) : List (Branch × Typed) :=
  if t.schema.isObject then propertiesNamed t.properties t.declared else []

theorem visitedChildren_eq (t : Typed) : t.visitedChildren = t.visitedBefore ++ t.visitedAfter := by
  by_cases object : t.schema.isObject = true
  · rw [visitedBefore, visitedAfter, if_pos object, if_pos object, visitedChildren, if_pos object]
  · rw [visitedBefore, visitedAfter, if_neg object, if_neg object, List.append_nil]

theorem visits_iff {t c : Typed} {b : Branch} :
    t.Visits b c ↔ (b, c) ∈ t.visitedBefore ∨ (b, c) ∈ t.visitedAfter := by
  rw [Visits, visitedChildren_eq, List.mem_append]

/-- The nodes that the search checks, each with the walk to it, in the order of the checks: those
in the children that it visits before, then the node itself, then those in its properties. -/
def checked (t : Typed) : List (List Branch × Typed) :=
  (t.visitedBefore.attach.flatMap fun ⟨(b, c), _⟩ => c.checked.map fun e => (b :: e.1, e.2)) ++
    (if t.isDefined then [([], t)] else []) ++
    t.visitedAfter.attach.flatMap fun ⟨(b, c), _⟩ => c.checked.map fun e => (b :: e.1, e.2)
termination_by sizeOf t
decreasing_by
  · rename_i before
    exact sizeOf_lt_of_child (Visits.child (visits_iff.2 (.inl before)))
  · rename_i after
    exact sizeOf_lt_of_child (Visits.child (visits_iff.2 (.inr after)))

/-- The nodes that are checked below a node, child by child. -/
def checkedBelow (children : List (Branch × Typed)) : List (List Branch × Typed) :=
  children.flatMap fun p => p.2.checked.map fun e => (p.1 :: e.1, e.2)

theorem checked_eq (t : Typed) :
    t.checked = checkedBelow t.visitedBefore ++ (if t.isDefined then [([], t)] else []) ++
      checkedBelow t.visitedAfter := by
  have unattached : ∀ children : List (Branch × Typed),
      (children.attach.flatMap fun ⟨(b, c), _⟩ => c.checked.map fun e => (b :: e.1, e.2)) =
        checkedBelow children := fun children =>
    List.flatMap_subtype (fun _ _ => rfl) |>.trans (by rw [List.unattach_attach, checkedBelow])
  rw [checked, unattached, unattached]

theorem mem_checkedBelow {children : List (Branch × Typed)} {bs : List Branch} {u : Typed} :
    (bs, u) ∈ checkedBelow children ↔
      ∃ b c cs, (b, c) ∈ children ∧ (cs, u) ∈ c.checked ∧ bs = b :: cs := by
  simp only [checkedBelow, List.mem_flatMap, List.mem_map, Prod.exists, Prod.mk.injEq]
  constructor
  · rintro ⟨b, c, visited, cs, _, mem, rfl, rfl⟩
    exact ⟨b, c, cs, visited, mem, rfl⟩
  · rintro ⟨b, c, cs, visited, mem, rfl⟩
    exact ⟨b, c, visited, cs, u, mem, rfl, rfl⟩

theorem mem_checked_iff_child {t u : Typed} {bs : List Branch} :
    (bs, u) ∈ t.checked ↔ (bs = [] ∧ u = t ∧ t.isDefined = true) ∨
      ∃ b c cs, t.Visits b c ∧ (cs, u) ∈ c.checked ∧ bs = b :: cs := by
  have own : (bs, u) ∈ (if t.isDefined then [([], t)] else []) ↔
      bs = [] ∧ u = t ∧ t.isDefined = true := by
    cases t.isDefined <;> simp
  rw [checked_eq, List.mem_append, List.mem_append, mem_checkedBelow, mem_checkedBelow, own]
  simp only [visits_iff, or_and_right, exists_or]
  rw [or_comm (b := bs = [] ∧ u = t ∧ t.isDefined = true), or_assoc]

/-- **The nodes that are checked are those on the walks of the search that become definitions.** -/
theorem mem_checked {t u : Typed} {bs : List Branch} :
    (bs, u) ∈ t.checked ↔ Walk Visits t bs u ∧ u.isDefined = true := by
  induction t using Typed.induction generalizing bs u with
  | step t ih =>
    rw [mem_checked_iff_child]
    constructor
    · rintro (⟨rfl, rfl, defined⟩ | ⟨b, c, cs, visited, mem, rfl⟩)
      · exact ⟨.here u, defined⟩
      · obtain ⟨walk, defined⟩ := (ih b c visited.child).1 mem
        exact ⟨.down visited walk, defined⟩
    · rintro ⟨walk, defined⟩
      cases walk with
      | here => exact .inl ⟨rfl, rfl, defined⟩
      | down visited walk =>
        exact .inr ⟨_, _, _, visited, (ih _ _ visited.child).2 ⟨walk, defined⟩, rfl⟩

/-- A node is checked if it is an object that declares fields. -/
theorem isDefined_iff_declared {t : Typed} :
    t.isDefined = true ↔ t.schema.isObject = true ∧ t.declared ≠ [] := by
  simp [isDefined]

/-! ### Checks that fail -/

/-- The first property that a node has but does not declare. -/
def undeclared? (t : Typed) : Option String :=
  (t.properties.map Prod.fst).find? fun name => !t.declared.contains name

theorem undeclared?_isSome {t : Typed} :
    t.undeclared?.isSome = true ↔ ∃ name ∈ t.properties.map Prod.fst, name ∉ t.declared := by
  simp [undeclared?]

/-- The error of a node at a place, if its check fails. -/
def misfit? (l : Location) (t : Typed) : Option CompileError :=
  t.undeclared?.map fun name => .invalidFieldList l name t.declared

/-- The errors of all checks that fail, in the order of the checks. -/
def misfits (l : Location) (t : Typed) : List CompileError :=
  t.checked.filterMap fun e => e.2.misfit? (l.along e.1)

/-- The errors of all checks that fail below a node, child by child. -/
def misfitsBelow (l : Location) (children : List (Branch × Typed)) : List CompileError :=
  children.flatMap fun p => p.2.misfits (l.along [p.1])

theorem filterMap_checkedBelow (l : Location) (children : List (Branch × Typed)) :
    (checkedBelow children).filterMap (fun e => e.2.misfit? (l.along e.1)) =
      misfitsBelow l children := by
  rw [checkedBelow, List.filterMap_flatMap, misfitsBelow]
  refine List.flatMap_congr fun p _ => ?_
  rw [List.filterMap_map, misfits]
  refine List.filterMap_congr fun e _ => ?_
  show e.2.misfit? (l.along (p.1 :: e.1)) = _
  rw [l.along_cons]

theorem misfits_eq (l : Location) (t : Typed) :
    t.misfits l = misfitsBelow l t.visitedBefore ++
      (if t.isDefined then (t.misfit? l).toList else []) ++ misfitsBelow l t.visitedAfter := by
  have own : (if t.isDefined then [([], t)] else []).filterMap
      (fun e : List Branch × Typed => e.2.misfit? (l.along e.1)) =
        if t.isDefined then (t.misfit? l).toList else [] := by
    cases t.isDefined with
    | false => rfl
    | true =>
      rw [if_pos rfl, if_pos rfl, List.filterMap_cons, Location.along_nil]
      cases t.misfit? l <;> rfl
  rw [misfits, checked_eq, List.filterMap_append, List.filterMap_append, filterMap_checkedBelow,
    filterMap_checkedBelow, own]

/-- The first error is that of the first node whose check fails. -/
theorem head?_misfits {l : Location} {t : Typed} {e : CompileError} :
    (t.misfits l).head? = some e ↔ ∃ bs u name,
      t.checked.find? (fun c => c.2.undeclared?.isSome) = some (bs, u) ∧
        u.undeclared? = some name ∧ e = .invalidFieldList (l.along bs) name u.declared := by
  rw [misfits]
  induction t.checked with
  | nil => simp
  | cons c rest ih =>
    obtain ⟨cs, v⟩ := c
    cases hv : v.undeclared? with
    | none =>
      rw [List.filterMap_cons_none (by rw [misfit?, hv]; rfl),
        List.find?_cons_of_neg (by simp [hv])]
      exact ih
    | some name =>
      rw [List.filterMap_cons_some (by rw [misfit?, hv]; rfl),
        List.find?_cons_of_pos (by simp [hv]), List.head?_cons, Option.some_inj]
      constructor
      · rintro rfl
        exact ⟨cs, v, name, rfl, hv, rfl⟩
      · rintro ⟨bs, u, name', same, missing, rfl⟩
        cases same
        rw [Option.some.inj (hv.symm.trans missing)]

theorem misfits_eq_nil {l : Location} {t : Typed} :
    t.misfits l = [] ↔ ∀ c ∈ t.checked, c.2.undeclared? = none := by
  simp [misfits, misfit?, List.filterMap_eq_nil_iff]

end Typed

/-! ### The first check that fails -/

namespace Definition

/-- Wherever a node lies, the search from it on ends with the error of the first check that
fails. -/
def EndsWithFirstMisfit (t : Typed) : Prop := ∀ l, error? (visit l t) = (t.misfits l).head?

variable {l : Location}

theorem error?_visitList {branch : Nat → Branch} {place : Location}
    (places : ∀ i, l.along [branch i] = place.index i) {ts : List Typed}
    (each : ∀ t ∈ ts, EndsWithFirstMisfit t) (i : Nat) :
    error? (visitList place i ts) =
      (Typed.misfitsBelow l ((ts.zipIdx i).map fun p => (branch p.2, p.1))).head? := by
  induction ts generalizing i with
  | nil => rfl
  | cons t rest ih =>
    have first := each t List.mem_cons_self (l.along [branch i])
    have others := ih (fun t mem => each t (List.mem_cons_of_mem _ mem)) (i + 1)
    rw [places] at first
    rw [visitList, List.zipIdx_cons, List.map_cons, Typed.misfitsBelow, List.flatMap_cons, places]
    refine error?_bind first fun v _ => ?_
    rw [← List.append_nil (List.flatMap _ _)]
    exact error?_bind others fun _ _ => rfl

theorem error?_members {ps : List (String × Typed)}
    (each : ∀ name c, (name, c) ∈ ps → EndsWithFirstMisfit c) (names : List String) :
    error? (members (visitProperties (l.key "properties") ps) names) =
      (Typed.misfitsBelow l (Typed.propertiesNamed ps names)).head? := by
  induction names with
  | nil => rfl
  | cons name rest ih =>
    rw [members, lookup_visitProperties, Typed.propertiesNamed_cons]
    cases hname : ps.lookup name with
    | none =>
      rw [← List.append_nil (Typed.misfitsBelow _ _)]
      exact error?_bind ih fun _ _ => rfl
    | some c =>
      have own := each name c (mem_of_lookup hname) (l.along [.property name])
      rw [Location.along_property] at own
      rw [Typed.misfitsBelow, List.flatMap_cons, Location.along_property]
      refine error?_bind own fun v _ => ?_
      rw [← List.append_nil (List.flatMap _ _)]
      exact error?_bind ih fun _ _ => rfl

/-- The check of a node comes before the search through its properties. -/
theorem error?_ofObject {t : Typed}
    (each : ∀ name c, (name, c) ∈ t.properties → EndsWithFirstMisfit c) :
    error? (ofObject l t.descriptor t.declared
        (visitProperties (l.key "properties") t.properties)) =
      ((t.misfit? l).toList ++
        Typed.misfitsBelow l (Typed.propertiesNamed t.properties t.declared)).head? := by
  rw [ofObject, Typed.misfit?, Typed.undeclared?, ← visitProperties_names (l.key "properties"),
    List.find?_map]
  cases undeclared : (visitProperties (l.key "properties") t.properties).find?
      ((fun name => !t.declared.contains name) ∘ Prod.fst) with
  | some p =>
    rw [show (visitProperties (l.key "properties") t.properties).find?
      (fun v => !t.declared.contains v.1) = some p from undeclared]
    rfl
  | none =>
    rw [show (visitProperties (l.key "properties") t.properties).find?
      (fun v => !t.declared.contains v.1) = none from undeclared]
    have properties := error?_members (l := l) each t.declared
    show error? (members _ _ >>= _) = (Typed.misfitsBelow _ _).head?
    rw [← List.append_nil (Typed.misfitsBelow _ _)]
    exact error?_bind properties fun _ _ => rfl

/-- The search through the children of an object: its alternatives, then its own check, then its
declared properties. -/
theorem error?_fromObject {t : Typed} (object : t.schema.isObject = true)
    (each : ∀ b c, t.Child b c → EndsWithFirstMisfit c) :
    error? (fromChildren l t) = (t.misfits l).head? := by
  have eachAlternative : ∀ c ∈ t.oneOf, EndsWithFirstMisfit c := by
    intro c mem
    obtain ⟨i, hi⟩ := List.mem_iff_getElem?.1 mem
    exact each (.alternative i) c hi
  have alternatives := error?_visitList (fun i => l.along_alternative i) eachAlternative 0
  rw [fromChildren, if_pos object, Typed.misfits_eq, Typed.visitedBefore, if_pos object,
    Typed.visitedAfter, if_pos object, Typed.isDefined, object, Bool.true_and, List.append_assoc]
  refine error?_bind alternatives fun as _ => ?_
  cases none : t.declared.isEmpty with
  | true =>
    have names : t.declared = [] := List.isEmpty_iff.1 none
    rw [names]
    rfl
  | false =>
    have own := error?_ofObject (l := l) fun name c mem => each (.property name) c mem
    rw [← List.append_nil (_ ++ _)]
    exact error?_bind own fun _ _ => rfl

theorem error?_fromChildren {t : Typed} (each : ∀ b c, t.Child b c → EndsWithFirstMisfit c) :
    error? (fromChildren l t) = (t.misfits l).head? := by
  by_cases object : t.schema.isObject = true
  · exact error?_fromObject object each
  have undefined : t.isDefined = false := by
    rw [Typed.isDefined, Bool.eq_false_iff.2 object, Bool.false_and]
  have below : t.misfits l = Typed.misfitsBelow l t.visitedChildren := by
    rw [Typed.misfits_eq, Typed.visitedBefore, if_neg object, Typed.visitedAfter, if_neg object,
      undefined]
    exact (List.append_nil _).trans (List.append_nil _)
  rw [below, fromChildren, if_neg object, Typed.visitedChildren, if_neg object]
  split
  · cases hitems : t.items with
    | some item =>
      have own := each .items item hitems (l.along [.items])
      rw [Location.along_items] at own
      rw [Typed.misfitsBelow, List.flatMap_singleton, Location.along_items,
        ← List.append_nil (Typed.misfits _ _)]
      exact error?_bind own fun _ _ => rfl
    | none =>
      have eachElement : ∀ c ∈ t.prefixItems, EndsWithFirstMisfit c := by
        intro c mem
        obtain ⟨i, hi⟩ := List.mem_iff_getElem?.1 mem
        exact each (.prefixItem i) c hi
      exact error?_visitList (fun i => l.along_prefixItem i) eachElement 0
  · rfl

/-- **A search ends with the error of the first check that fails**, and has a result if none
fails. -/
theorem error?_visit {t : Typed} (expressible : t.IsExpressible) : EndsWithFirstMisfit t := by
  induction t using Typed.induction with
  | step t ih =>
    intro l
    obtain ⟨literal, own⟩ : ∃ literal, defaultLiteral l t.schema.default = .ok literal :=
      ⟨_, defaultLiteral_eq_ok.2 ⟨expressible [] t (.here t), rfl⟩⟩
    have children := error?_fromChildren (l := l) fun b c child =>
      ih b c child (expressible.child child)
    rw [visit_eq, own, ← List.append_nil (t.misfits l)]
    show error? (fromChildren l t >>= _) = _
    exact error?_bind children fun _ _ => rfl

/-- Of an object that declares nothing, only the alternatives are searched. -/
theorem fromChildren_of_undeclared {t : Typed} (object : t.schema.isObject = true)
    (undeclared : t.declared = []) : fromChildren l t = visitList (l.key "oneOf") 0 t.oneOf := by
  rw [fromChildren, if_pos object, undeclared]
  cases visitList (l.key "oneOf") 0 t.oneOf with
  | error e => rfl
  | ok found => exact congrArg Except.ok (List.append_nil found)

theorem visit_of_undeclared {t : Typed} (object : t.schema.isObject = true)
    (undeclared : t.declared = []) (ps : List (String × Typed)) :
    visit l { t with properties := ps } = visit l t := by
  have others : fromChildren l { t with properties := ps } = _ :=
    fromChildren_of_undeclared object undeclared
  rw [visit_eq, visit_eq, others, fromChildren_of_undeclared object undeclared]

theorem exists_alternative_of_visit_error {t : Typed} (object : t.schema.isObject = true)
    (undeclared : t.declared = [])
    (expressible : ∀ v, t.schema.default = some v → ∃ literal, v.toLiteral = .ok literal)
    {e : CompileError} (failed : visit l t = .error e) :
    ∃ i c, t.oneOf[i]? = some c ∧ visit (l.along [.alternative i]) c = .error e := by
  have own : defaultLiteral l t.schema.default = .ok _ := defaultLiteral_eq_ok.2 ⟨expressible, rfl⟩
  rw [visit_eq, own, fromChildren_of_undeclared object undeclared] at failed
  rcases bind_eq_error.1 failed with impossible | ⟨_, -, failed⟩
  · cases impossible
  rcases bind_eq_error.1 failed with failed | ⟨_, -, done⟩
  · obtain ⟨i, c, hi, failed⟩ := visitList_eq_error failed
    rw [Nat.zero_add, ← Location.along_alternative] at failed
    exact ⟨i, c, hi, failed⟩
  · cases done

end Definition

/-- All numbers in the default values of a typed tree are finite. -/
def Typed.HasFiniteDefaults (t : Typed) : Prop :=
  ∀ bs u v, Walk Typed.Child t bs u → u.schema.default = some v → v.HasFiniteNumbers

theorem Typed.HasFiniteDefaults.isExpressible {t : Typed} (finite : t.HasFiniteDefaults) :
    t.IsExpressible :=
  fun bs u walk v hv => (finite bs u v walk hv).exists_toLiteral_eq_ok

/-- **A search fails exactly if it comes to a definition that does not declare all its
properties.**  The nodes are checked one after the other, each after its alternatives and before
its properties, and the error is that of the first that fails: its place, the first property in
document order that it does not declare, and all that it declares.  An object that declares nothing
only passes on errors of its alternatives; its properties do not matter. -/
theorem search_reports_first_misfit (t : Typed) (finite : t.HasFiniteDefaults) :
    ((∃ e, t.definitions = .error e) ↔
      ∃ bs u, Walk Typed.Visits t bs u ∧ u.schema.isObject = true ∧ u.declared ≠ [] ∧
        ∃ name ∈ u.properties.map Prod.fst, name ∉ u.declared) ∧
    (∀ e, t.definitions = .error e ↔
      ∃ bs u name, t.checked.find? (fun c => c.2.undeclared?.isSome) = some (bs, u) ∧
        u.undeclared? = some name ∧
        e = .invalidFieldList (Location.root.along bs) name u.declared) ∧
    ∀ bs u, Walk Typed.Child t bs u → u.schema.isObject = true → u.declared = [] →
      (∀ name c, ¬ u.Visits (.property name) c) ∧
      ∀ l, (∀ ps, Definition.visit l { u with properties := ps } = Definition.visit l u) ∧
        ∀ e, Definition.visit l u = .error e →
          ∃ i c, u.oneOf[i]? = some c ∧
            Definition.visit (l.along [.alternative i]) c = .error e := by
  have first : error? t.definitions = (t.misfits .root).head? := by
    rw [Typed.definitions, error?_map]
    exact Definition.error?_visit finite.isExpressible .root
  have reported : ∀ e, t.definitions = .error e ↔ (t.misfits .root).head? = some e := by
    intro e
    rw [← first, error?_eq_some]
  refine ⟨?_, fun e => (reported e).trans Typed.head?_misfits,
    fun bs u walk object undeclared => ?_⟩
  · constructor
    · rintro ⟨e, failed⟩
      obtain ⟨bs, u, name, found, missing, -⟩ := Typed.head?_misfits.1 ((reported e).1 failed)
      obtain ⟨walk, defined⟩ := Typed.mem_checked.1 (List.mem_of_find?_eq_some found)
      obtain ⟨object, declared⟩ := Typed.isDefined_iff_declared.1 defined
      exact ⟨bs, u, walk, object, declared, Typed.undeclared?_isSome.1 (by rw [missing]; rfl)⟩
    · rintro ⟨bs, u, walk, object, declared, missing⟩
      have mem := Typed.mem_checked.2 ⟨walk, Typed.isDefined_iff_declared.2 ⟨object, declared⟩⟩
      cases failed : (t.misfits .root).head? with
      | some e => exact ⟨e, (reported e).2 failed⟩
      | none =>
        have fine := Typed.misfits_eq_nil.1 (List.head?_eq_none_iff.1 failed) _ mem
        have fails := Typed.undeclared?_isSome.2 missing
        rw [fine] at fails
        cases fails
  · have expressible := finite.isExpressible bs u walk
    refine ⟨fun name c visited => ?_, fun l =>
      ⟨Definition.visit_of_undeclared object undeclared, fun e failed =>
        Definition.exists_alternative_of_visit_error object undeclared expressible failed⟩⟩
    rw [Typed.visits_iff, Typed.visitedBefore, Typed.visitedAfter, if_pos object, if_pos object,
      undeclared] at visited
    simp [Typed.propertiesNamed] at visited

/-- Two definitions that do not declare all their properties; the one that is declared first comes
second in the document, and the object above it hides a third. -/
def ledger : Schema :=
  { Schema.ofTypeName "object" with
    targetType := some "Ledger"
    declaredFields := some ["entries", "closing"]
    properties := [
      ("closing", { Schema.ofTypeName "object" with
        targetType := some "Closing"
        declaredFields := some ["sum"]
        properties := [("odd", Schema.ofTypeName "integer")] }),
      ("entries", { Schema.ofTypeName "array" with
        items := some { Schema.ofTypeName "object" with
          declaredFields := some []
          properties := [("hidden", { Schema.ofTypeName "object" with
            targetType := some "Hidden"
            declaredFields := some ["a"]
            properties := [("b", Schema.ofTypeName "integer")] })]
          oneOf := some [Schema.ofTypeName "integer", { Schema.ofTypeName "object" with
            targetType := some "Entry"
            declaredFields := some ["day"]
            properties := [
              ("day", Schema.ofTypeName "integer"),
              ("note", { Schema.ofTypeName "string" with default := some (.string "") }),
              ("amount", Schema.ofTypeName "number")] }] } })] }

theorem ledger_first_misfit :
    let walk : List Branch := [.property "entries", .items, .alternative 1]
    ∃ r, ledger.resolve {} = .ok r ∧ r.root.HasFiniteDefaults ∧
      r.root.definitions =
        .error (.invalidFieldList (Location.root.along walk) "note" ["day"]) ∧
      (∃ u, r.root.checked.find? (fun c => c.2.undeclared?.isSome) = some (walk, u) ∧
        u.undeclared? = some "note") ∧
      ∃ u, Walk Typed.Child r.root [.property "entries", .items] u ∧
        ∀ name c, ¬ u.Visits (.property name) c := by
  intro walk
  obtain ⟨r, resolved, failed, defaults, list, hlist, item, hitem, object, undeclared⟩ :
      ∃ r, ledger.resolve {} = .ok r ∧
        r.root.definitions =
          .error (.invalidFieldList (Location.root.along walk) "note" ["day"]) ∧
        (∀ u ∈ r.root.nodes, u.schema.default = none ∨ u.schema.default = some (.string "")) ∧
        ∃ list, r.root.Child (.property "entries") list ∧ ∃ item, list.Child .items item ∧
          item.schema.isObject = true ∧ item.declared = [] :=
    ⟨_, rfl, rfl,
      by simp [Typed.nodes, Typed.nodesOfList, Typed.nodesOfProperties, Schema.ofTypeName],
      _, List.mem_of_getElem? (i := 1) rfl, _, rfl, rfl, rfl⟩
  have finite : r.root.HasFiniteDefaults := by
    intro bs u v walk hv
    rcases defaults u (Typed.mem_nodes.2 ⟨bs, walk⟩) with absent | text
    · cases hv.symm.trans absent
    · cases hv.symm.trans text
      exact (Json.isDocument_string "").finite
  have reports := search_reports_first_misfit r.root finite
  obtain ⟨bs, u, name, found, missing, same⟩ := (reports.2.1 _).1 failed
  obtain ⟨place, rfl, -⟩ := CompileError.invalidFieldList.inj same
  obtain rfl := Location.along_injective _ place
  have inside : Walk Typed.Child r.root [.property "entries", .items] item :=
    .down hlist (.down hitem (.here item))
  exact ⟨r, resolved, finite, failed, ⟨u, found, missing⟩, item, inside,
    (reports.2.2 _ item inside object undeclared).1⟩

end SchemaModel
