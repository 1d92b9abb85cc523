import SchemaModel.Proofs.NestingBounds

/-!
# The check of the nesting measures a document

The slots that lead to a value give it a node depth, and the number of steps is its raw depth.  The
check finds the same depths with a list of the values still to be looked at.  Taking a value from
the list and putting those below it in front, last to first, is a traversal of the document: a value
comes first, then what is below it.  So the check passes exactly if no value lies too deep, and
otherwise it reports the first one that does.

* `Nesting.Lies` — the depth of a value, by the slots that lead to it;
* `Nesting.Pending.preorder` — the values of a document in the order of the traversal;
* `Nesting.Rounds` — the rounds of the check;
* `Nesting.liesIn_iff_leads` — the check comes to the values at their depths;
* `Nesting.error?_checkAll` — the check reports the first value that is too deep;
* `Nesting.mem_of_append_preorder` — a value is preceded by the one that it stands in;
* `nesting_check_measures_document` — all of this for a document.
-/

namespace SchemaModel

open Outcome

namespace Nesting

/-! ### Depths by the slots -/

/-- A value lies at a place of a document, in a role and at a node depth. -/
inductive Lies (document : Json) : Location → Role → Nat → Json → Prop
  | root : Lies document .root .node 0 document
  | items {l : Location} {n : Nat} {members : List (String × Json)} {v : Json}
      (node : Lies document l .node n (.object members)) (mem : ("items", v) ∈ members) :
      Lies document (l.key "items") .node (n + 1) v
  | nodeList {l : Location} {n : Nat} {members : List (String × Json)} {key : String} {v : Json}
      (node : Lies document l .node n (.object members)) (mem : (key, v) ∈ members)
      (slot : key = "prefixItems" ∨ key = "oneOf") : Lies document (l.key key) .nodeList n v
  | nodeTable {l : Location} {n : Nat} {members : List (String × Json)} {v : Json}
      (node : Lies document l .node n (.object members)) (mem : ("properties", v) ∈ members) :
      Lies document (l.key "properties") .nodeTable n v
  | slot {l : Location} {n : Nat} {members : List (String × Json)} {key : String} {v : Json}
      (node : Lies document l .node n (.object members)) (mem : (key, v) ∈ members)
      (other : key ∉ ["items", "prefixItems", "oneOf", "properties"]) :
      Lies document (l.key key) .literal n v
  | element {l : Location} {n : Nat} {items : List Json} {i : Nat} {v : Json}
      (list : Lies document l .nodeList n (.array items)) (at_ : items[i]? = some v) :
      Lies document (l.index i) .node (n + 1) v
  | value {l : Location} {n : Nat} {members : List (String × Json)} {key : String} {v : Json}
      (table : Lies document l .nodeTable n (.object members)) (mem : (key, v) ∈ members) :
      Lies document (l.key key) .node (n + 1) v
  | member {l : Location} {role : Role} {n : Nat} {members : List (String × Json)} {key : String}
      {v : Json} (literal : Lies document l role n (.object members))
      (plain : role ≠ .node ∧ role ≠ .nodeTable) (mem : (key, v) ∈ members) :
      Lies document (l.key key) .literal n v
  | item {l : Location} {role : Role} {n : Nat} {items : List Json} {i : Nat} {v : Json}
      (literal : Lies document l role n (.array items)) (plain : role ≠ .nodeList)
      (at_ : items[i]? = some v) : Lies document (l.index i) .literal n v

/-- A value as the check holds it lies in a document at its place and its two depths. -/
def Pending.LiesIn (document : Json) (p : Pending) : Prop :=
  Lies document p.location p.role p.nodeDepth p.value ∧ p.rawDepth = p.location.depth

theorem Role.ofMember_node {key : String}
    (other : key ∉ ["items", "prefixItems", "oneOf", "properties"]) :
    Role.node.ofMember key = (.literal, 0) := by
  unfold Role.ofMember
  split <;> simp_all

namespace Pending

theorem LiesIn.ofMember {document : Json} {p : Pending} {members : List (String × Json)}
    (lies : p.LiesIn document) (hp : p.value = .object members) {m : String × Json}
    (mem : m ∈ members) : (p.ofMember m).LiesIn document := by
  obtain ⟨key, v⟩ := m
  obtain ⟨lies, raw⟩ := lies
  rw [hp] at lies
  constructor
  · show Lies document (p.location.key key) (p.role.ofMember key).1
      (p.nodeDepth + (p.role.ofMember key).2) v
    cases role : p.role with
    | node =>
      rw [role] at lies
      by_cases other : key ∈ ["items", "prefixItems", "oneOf", "properties"]
      · simp only [List.mem_cons, List.not_mem_nil, or_false] at other
        rcases other with rfl | rfl | rfl | rfl
        · exact .items lies mem
        · exact .nodeList lies mem (.inl rfl)
        · exact .nodeList lies mem (.inr rfl)
        · exact .nodeTable lies mem
      · rw [Role.ofMember_node other]
        exact .slot lies mem other
    | nodeTable => exact .value (role ▸ lies) mem
    | nodeList => exact .member lies (by simp [role]) mem
    | literal => exact .member lies (by simp [role]) mem
  · show p.rawDepth + 1 = (p.location.key key).depth
    rw [Location.depth_key, raw]

theorem LiesIn.ofElement {document : Json} {p : Pending} {items : List Json}
    (lies : p.LiesIn document) (hp : p.value = .array items) {i : Nat} {v : Json}
    (hi : items[i]? = some v) : (p.ofElement v i).LiesIn document := by
  obtain ⟨lies, raw⟩ := lies
  rw [hp] at lies
  constructor
  · show Lies document (p.location.index i) p.role.ofElement.1
      (p.nodeDepth + p.role.ofElement.2) v
    cases role : p.role with
    | nodeList => exact .element (role ▸ lies) hi
    | _ => exact .item lies (by simp [role]) hi
  · show p.rawDepth + 1 = (p.location.index i).depth
    rw [Location.depth_index, raw]

theorem LiesIn.child {document : Json} {p q : Pending} (lies : p.LiesIn document)
    (child : q ∈ p.children) : q.LiesIn document := by
  cases hp : p.value with
  | object members =>
    obtain ⟨m, mem, rfl⟩ := (mem_children_object hp).1 child
    exact lies.ofMember hp mem
  | array items =>
    obtain ⟨i, v, hi, rfl⟩ := (mem_children_array hp).1 child
    exact lies.ofElement hp hi
  | _ =>
    rw [children, hp] at child
    cases child

end Pending

/-- **The check comes to the values of a document at the depths that their slots give them.** -/
theorem liesIn_iff_leads {document : Json} {p : Pending} :
    p.LiesIn document ↔ (Pending.root document).Leads p := by
  constructor
  · rintro ⟨lies, raw⟩
    obtain ⟨v, l, role, n, k⟩ := p
    obtain rfl : k = l.depth := raw
    change Lies document l role n v at lies
    have member : ∀ {l : Location} {role : Role} {n : Nat} {members : List (String × Json)}
        {key : String} {v : Json},
        (Pending.root document).Leads ⟨.object members, l, role, n, l.depth⟩ →
        (key, v) ∈ members → (Pending.root document).Leads ⟨v, l.key key, (role.ofMember key).1,
          n + (role.ofMember key).2, (l.key key).depth⟩ := by
      intro l role n members key v leads mem
      rw [Location.depth_key]
      exact leads.tail (Pending.ofMember_mem_children rfl mem)
    have element : ∀ {l : Location} {role : Role} {n : Nat} {items : List Json} {i : Nat}
        {v : Json}, (Pending.root document).Leads ⟨.array items, l, role, n, l.depth⟩ →
        items[i]? = some v → (Pending.root document).Leads ⟨v, l.index i, role.ofElement.1,
          n + role.ofElement.2, (l.index i).depth⟩ := by
      intro l role n items i v leads hi
      rw [Location.depth_index]
      exact leads.tail (Pending.ofElement_mem_children rfl hi)
    induction lies with
    | root => exact .refl
    | items _ mem ih => exact member ih mem
    | nodeList _ mem slot ih => rcases slot with rfl | rfl <;> exact member ih mem
    | nodeTable _ mem ih => exact member ih mem
    | slot _ mem other ih =>
      have below := member ih mem
      rwa [Role.ofMember_node other] at below
    | element _ hi ih => exact element ih hi
    | value _ mem ih => exact member ih mem
    | @member _ role _ _ _ _ _ plain mem ih =>
      cases role <;> first | exact member ih mem | simp at plain
    | @item _ role _ _ _ _ _ plain hi ih =>
      cases role <;> first | exact element ih hi | simp at plain
  · intro leads
    induction leads with
    | refl => exact ⟨.root, rfl⟩
    | tail _ child ih => exact ih.child child

/-! ### The traversal -/

namespace Pending

theorem size_lt_of_mem_children {p q : Pending} (child : q ∈ p.children) :
    q.value.size < p.value.size := by
  have within : ∀ {ps : List Pending}, q ∈ ps → q.value.size ≤ total ps := by
    intro ps mem
    induction ps with
    | nil => cases mem
    | cons r rest ih =>
      rw [total]
      rcases List.mem_cons.1 mem with rfl | mem
      · omega
      · have below := ih mem
        omega
  exact Nat.lt_of_le_of_lt (within child) p.total_children_lt

/-- A value and the values below it, last to first, each followed by those below it. -/
def preorder (p : Pending) : List Pending :=
  p :: p.children.reverse.attach.flatMap fun ⟨q, _⟩ => q.preorder
termination_by p.value.size
decreasing_by
  rename_i child
  exact size_lt_of_mem_children (List.mem_reverse.1 child)

theorem preorder_eq (p : Pending) :
    p.preorder = p :: p.children.reverse.flatMap preorder := by
  rw [preorder]
  congr 1
  exact List.flatMap_subtype (fun _ _ => rfl) |>.trans (by rw [List.unattach_attach])

end Pending

/-- The traversal of a list of values goes on with those below the first one. -/
theorem flatMap_preorder_cons (p : Pending) (rest : List Pending) :
    (p :: rest).flatMap Pending.preorder =
      p :: (p.children.reverse ++ rest).flatMap Pending.preorder := by
  rw [List.flatMap_cons, Pending.preorder_eq, List.flatMap_append, List.cons_append]

/-- What holds of the list of values to be looked at at the end of the check holds before each of
its rounds. -/
theorem worklist_induction {P : List Pending → Prop} (nil : P [])
    (cons : ∀ p rest, P (p.children.reverse ++ rest) → P (p :: rest)) (pending : List Pending) :
    P pending :=
  match pending with
  | [] => nil
  | p :: rest => cons p rest (worklist_induction nil cons (p.children.reverse ++ rest))
termination_by Pending.total pending
decreasing_by
  have h := p.total_children_lt
  rw [Pending.total_append, Pending.total_reverse, Pending.total]
  omega

/-- **The check reports the first value of the traversal that is too deep.** -/
theorem error?_checkAll (pending : List Pending) :
    error? (checkAll pending) =
      (pending.flatMap Pending.preorder).findSome? Pending.violation? := by
  induction pending using worklist_induction with
  | nil =>
    rw [checkAll]
    rfl
  | cons p rest ih =>
    rw [checkAll, flatMap_preorder_cons, List.findSome?_cons]
    cases p.violation? with
    | some e => rfl
    | none => exact ih

/-- A value of the traversal is one of those that it started with, or it is preceded by the one
that it stands in. -/
theorem mem_of_append_preorder {pending before after : List Pending} {q : Pending}
    (order : pending.flatMap Pending.preorder = before ++ q :: after) :
    q ∈ pending ∨ ∃ p ∈ before, q ∈ p.children := by
  induction pending using worklist_induction generalizing before with
  | nil => simp at order
  | cons p rest ih =>
    rw [flatMap_preorder_cons] at order
    cases before with
    | nil =>
      cases order
      exact .inl List.mem_cons_self
    | cons r before =>
      rw [List.cons_append] at order
      obtain ⟨rfl, behind⟩ := List.cons.inj order
      rcases ih behind with mem | ⟨parent, mem, child⟩
      · rcases List.mem_append.1 mem with child | later
        · exact .inr ⟨p, List.mem_cons_self, List.mem_reverse.1 child⟩
        · exact .inl (List.mem_cons_of_mem _ later)
      · exact .inr ⟨parent, List.mem_cons_of_mem _ mem, child⟩

/-- The traversal comes to the same values as the check. -/
theorem mem_preorder {p q : Pending} : q ∈ p.preorder ↔ p.Leads q := by
  constructor
  · have traversed : ∀ pending : List Pending, q ∈ pending.flatMap Pending.preorder →
        ∃ r ∈ pending, r.Leads q := by
      intro pending mem
      induction pending using worklist_induction with
      | nil => cases mem
      | cons r rest ih =>
        rw [flatMap_preorder_cons] at mem
        rcases List.mem_cons.1 mem with rfl | mem
        · exact ⟨q, List.mem_cons_self, .refl⟩
        obtain ⟨c, mem, leads⟩ := ih mem
        rcases List.mem_append.1 mem with child | later
        · exact ⟨r, List.mem_cons_self, .head (List.mem_reverse.1 child) leads⟩
        · exact ⟨c, List.mem_cons_of_mem _ later, leads⟩
    intro mem
    obtain ⟨r, start, leads⟩ := traversed [p] (by simpa using mem)
    rwa [List.mem_singleton.1 start] at leads
  · intro leads
    induction leads using Relation.ReflTransGen.head_induction_on with
    | refl =>
      rw [Pending.preorder_eq]
      exact List.mem_cons_self
    | @head r c child _ ih =>
      rw [Pending.preorder_eq]
      exact List.mem_cons_of_mem _ (List.mem_flatMap.2 ⟨c, List.mem_reverse.2 child, ih⟩)

/-! ### The rounds of the check -/

/-- The check of a list of values takes a number of rounds and has an outcome. -/
inductive Rounds : List Pending → Nat → Except CompileError Unit → Prop
  | finished : Rounds [] 0 (.ok ())
  | refused {p : Pending} {rest : List Pending} {e : CompileError}
      (violated : p.violation? = some e) : Rounds (p :: rest) 1 (.error e)
  | passed {p : Pending} {rest : List Pending} {k : Nat} {outcome : Except CompileError Unit}
      (fine : p.violation? = none) (others : Rounds (p.children.reverse ++ rest) k outcome) :
      Rounds (p :: rest) (k + 1) outcome

/-- **The check ends after at most one round for each value.** -/
theorem exists_rounds (pending : List Pending) :
    ∃ k ≤ Pending.total pending, Rounds pending k (checkAll pending) := by
  induction pending using worklist_induction with
  | nil =>
    rw [checkAll]
    exact ⟨0, Nat.le_refl 0, .finished⟩
  | cons p rest ih =>
    obtain ⟨k, bound, rounds⟩ := ih
    have below := p.total_children_lt
    rw [Pending.total_append, Pending.total_reverse] at bound
    rw [checkAll, Pending.total]
    cases violation : p.violation? with
    | some e => exact ⟨1, by omega, .refused violation⟩
    | none => exact ⟨k + 1, by omega, .passed violation rounds⟩

/-! ### The first value that is too deep -/

theorem violation?_eq_some_iff {p : Pending} {e : CompileError} :
    p.violation? = some e ↔
      (maxNodeDepth < p.nodeDepth ∧ e = .nestingTooDeep p.location maxNodeDepth) ∨
        p.nodeDepth ≤ maxNodeDepth ∧ maxRawDepth < p.rawDepth ∧
          e = .nestingTooDeep p.location maxRawDepth := by
  unfold Pending.violation?
  split
  · rename_i deep
    simp [deep, Nat.not_le.2 deep, eq_comm]
  · rename_i shallow
    split
    · rename_i deep
      simp [shallow, deep, Nat.not_lt.1 shallow, eq_comm]
    · simp_all

/-- A value lies at most one node deeper, and exactly one step, than the one that it stands in. -/
theorem depths_of_mem_children {p q : Pending} (child : q ∈ p.children) :
    q.nodeDepth ≤ p.nodeDepth + 1 ∧ q.rawDepth = p.rawDepth + 1 := by
  have ofMember : ∀ (role : Role) key, (role.ofMember key).2 ≤ 1 := by
    intro role key
    unfold Role.ofMember
    split <;> (try split) <;> simp
  have ofElement : ∀ role : Role, role.ofElement.2 ≤ 1 := by
    intro role
    cases role <;> simp [Role.ofElement]
  cases hp : p.value with
  | object members =>
    obtain ⟨m, -, rfl⟩ := (Pending.mem_children_object hp).1 child
    exact ⟨Nat.add_le_add_left (ofMember p.role m.1) _, rfl⟩
  | array items =>
    obtain ⟨i, v, -, rfl⟩ := (Pending.mem_children_array hp).1 child
    exact ⟨Nat.add_le_add_left (ofElement p.role) _, rfl⟩
  | _ =>
    rw [Pending.children, hp] at child
    cases child

/-- **The first value that is too deep breaks its limit by one.** -/
theorem depths_of_first {document : Json} {before after : List Pending} {p : Pending}
    (order : (Pending.root document).preorder = before ++ p :: after)
    (fine : ∀ q ∈ before, q.violation? = none) :
    p.nodeDepth ≤ maxNodeDepth + 1 ∧ p.rawDepth ≤ maxRawDepth + 1 := by
  have start : [Pending.root document].flatMap Pending.preorder = before ++ p :: after := by
    rw [List.flatMap_singleton, order]
  rcases mem_of_append_preorder start with mem | ⟨parent, mem, child⟩
  · rw [List.mem_singleton.1 mem]
    exact ⟨Nat.zero_le _, Nat.zero_le _⟩
  · obtain ⟨node, raw⟩ := violation?_eq_none (fine parent mem)
    obtain ⟨node', raw'⟩ := depths_of_mem_children child
    omega

/-- In a document that repeats no key, the place of a value leads to the value only. -/
theorem Lies.follow? {document v : Json} (distinct : document.HasDistinctKeys) {l : Location}
    {role : Role} {n : Nat} (lies : Lies document l role n v) :
    document.follow? l.steps = some v ∧ v.HasDistinctKeys := by
  have member : ∀ {l : Location} {members : List (String × Json)} {key : String} {v : Json},
      document.follow? l.steps = some (.object members) ∧ (Json.object members).HasDistinctKeys →
      (key, v) ∈ members → document.follow? (l.key key).steps = some v ∧ v.HasDistinctKeys := by
    rintro l members key v ⟨found, distinct⟩ mem
    refine ⟨?_, distinct.inside (.deeper ⟨key, mem⟩ (.here v))⟩
    have first : (Json.object members).step? (.key key) = some v := lookup_of_mem distinct.1 mem
    rw [Location.key, Json.follow?_append, found]
    show ((Json.object members).step? (.key key)).bind some = some v
    rw [first]
    rfl
  have element : ∀ {l : Location} {items : List Json} {i : Nat} {v : Json},
      document.follow? l.steps = some (.array items) ∧ (Json.array items).HasDistinctKeys →
      items[i]? = some v → document.follow? (l.index i).steps = some v ∧ v.HasDistinctKeys := by
    rintro l items i v ⟨found, distinct⟩ hi
    refine ⟨?_, distinct.inside (.deeper (List.mem_of_getElem? hi) (.here v))⟩
    rw [Location.index, Json.follow?_append, found]
    show (items[i]?).bind some = some v
    rw [hi]
    rfl
  induction lies with
  | root => exact ⟨rfl, distinct⟩
  | items _ mem ih => exact member ih mem
  | nodeList _ mem _ ih => exact member ih mem
  | nodeTable _ mem ih => exact member ih mem
  | slot _ mem _ ih => exact member ih mem
  | element _ hi ih => exact element ih hi
  | value _ mem ih => exact member ih mem
  | member _ _ mem ih => exact member ih mem
  | item _ _ hi ih => exact element ih hi

end Nesting

open Nesting

/-- **The check of the nesting measures a document.**  It ends after at most one round for each
value; the traversal comes to exactly the values of the document, at their depths; the check passes
exactly if none of them is too deep; and otherwise it reports the first one in the traversal, by its
place, with the limit that this value breaks by one. -/
theorem nesting_check_measures_document (document : Json) :
    (∃ rounds ≤ document.size, Rounds [Pending.root document] rounds (check document)) ∧
    (∀ p, p ∈ (Pending.root document).preorder ↔
      Lies document p.location p.role p.nodeDepth p.value ∧ p.rawDepth = p.location.depth) ∧
    (check document = .ok () ↔ ∀ l role n v, Lies document l role n v →
      n ≤ maxNodeDepth ∧ l.depth ≤ maxRawDepth) ∧
    ∀ e, check document = .error e →
      ∃ before p after, (Pending.root document).preorder = before ++ p :: after ∧
        (∀ q ∈ before, q.nodeDepth ≤ maxNodeDepth ∧ q.rawDepth ≤ maxRawDepth) ∧
        p.rawDepth = p.location.depth ∧
        (document.HasDistinctKeys → document.follow? p.location.steps = some p.value) ∧
        (e = .nestingTooDeep p.location maxNodeDepth ∧ p.nodeDepth = maxNodeDepth + 1 ∨
          e = .nestingTooDeep p.location maxRawDepth ∧ p.rawDepth = maxRawDepth + 1 ∧
            p.nodeDepth ≤ maxNodeDepth) := by
  have first : error? (check document) =
      (Pending.root document).preorder.findSome? Pending.violation? := by
    rw [check, error?_checkAll, List.flatMap_singleton]
  have visited : ∀ p, p ∈ (Pending.root document).preorder ↔ p.LiesIn document :=
    fun p => mem_preorder.trans liesIn_iff_leads.symm
  refine ⟨?_, visited, ?_, fun e refused => ?_⟩
  · obtain ⟨k, bound, rounds⟩ := exists_rounds [Pending.root document]
    exact ⟨k, bound, rounds⟩
  · constructor
    · intro passed l role n v lies
      have fine : (⟨v, l, role, n, l.depth⟩ : Pending).violation? = none :=
        checkAll_eq_ok passed _ List.mem_cons_self _ (liesIn_iff_leads.1 ⟨lies, rfl⟩)
      exact violation?_eq_none fine
    · intro shallow
      refine checkAll_of_fine fun p start q leads => ?_
      rw [List.mem_singleton.1 start] at leads
      obtain ⟨lies, raw⟩ := liesIn_iff_leads.2 leads
      obtain ⟨node, steps⟩ := shallow _ _ _ _ lies
      exact violation?_of_le node (raw ▸ steps)
  · rw [← error?_eq_some, first, List.findSome?_eq_some_iff] at refused
    obtain ⟨before, p, after, order, violated, fine⟩ := refused
    obtain ⟨lies, steps⟩ := (visited p).1 (order ▸ List.mem_append_cons_self)
    obtain ⟨node, raw⟩ := depths_of_first order fine
    refine ⟨before, p, after, order, fun q mem => violation?_eq_none (fine q mem),
      steps, fun distinct => (lies.follow? distinct).1, ?_⟩
    rcases violation?_eq_some_iff.1 violated with ⟨deep, rfl⟩ | ⟨shallow, deep, rfl⟩
    · exact .inl ⟨rfl, Nat.le_antisymm node deep⟩
    · exact .inr ⟨rfl, Nat.le_antisymm raw deep, shallow⟩

/-- Lists of lists, the given number of levels deep. -/
def nestedLists : Nat → Json
  | 0 => .object [("type", .string "integer")]
  | n + 1 => .object [("type", .string "array"), ("items", nestedLists n)]

theorem nestedLists_refused :
    Lies (nestedLists 129) ⟨List.replicate 129 (.key "items")⟩ .node 129 (nestedLists 0) ∧
      ∃ l limit v, check (nestedLists 129) = .error (.nestingTooDeep l limit) ∧
        (nestedLists 129).follow? l.steps = some v := by
  have distinct : ∀ n, (nestedLists n).HasDistinctKeys := by
    intro n
    induction n with
    | zero => simp [nestedLists, Json.HasDistinctKeys, Json.MembersHaveDistinctKeys]
    | succ n ih => simp [nestedLists, Json.HasDistinctKeys, Json.MembersHaveDistinctKeys, ih]
  have inner : ∀ k m, Lies (nestedLists (k + m)) ⟨List.replicate k (.key "items")⟩ .node k
      (nestedLists m) := by
    intro k
    induction k with
    | zero => exact fun m => (Nat.zero_add m).symm ▸ .root
    | succ k ih =>
      intro m
      have lists := ih (m + 1)
      rw [show k + (m + 1) = k + 1 + m by omega] at lists
      rw [List.replicate_succ']
      exact .items lists (by simp)
  have deepest := inner 129 0
  obtain ⟨-, -, passes, reports⟩ := nesting_check_measures_document (nestedLists 129)
  refine ⟨deepest, ?_⟩
  rcases ok_or_error (check (nestedLists 129)) with ⟨⟨⟩, passed⟩ | ⟨e, refused⟩
  · exact absurd (passes.1 passed _ _ _ _ deepest).1 (by decide)
  · obtain ⟨before, p, after, -, -, -, leads, ⟨rfl, -⟩ | ⟨rfl, -⟩⟩ := reports e refused
    · exact ⟨p.location, maxNodeDepth, p.value, refused, leads (distinct 129)⟩
    · exact ⟨p.location, maxRawDepth, p.value, refused, leads (distinct 129)⟩

end SchemaModel
