import SchemaModel.Proofs.Places

/-!
# The two limits on nesting agree

A document is checked for its nesting value by value, by the slots that lead to each value; the
resolver counts nodes.  The check visits every value inside the document, and it counts a branch
from one node to the next as one level, so that what passes the check is never too deep for the
resolver.  A node that decodes lies in a value at least as many steps inside the document, so the
limit on steps bounds the depth of nodes whichever way they are written.

* `Nesting.Pending.Leads` — the values that the check comes to;
* `Nesting.checkAll_eq_ok` — if the check passes, none of them is too deep;
* `Nesting.Pending.exists_leads_of_walk`, `Nesting.Pending.exists_leads_of_inside` — it comes to
  every node of the document at its node depth and to every value at its raw depth;
* `Schema.exists_inside_of_walk` — every node is decoded from a value at least as deep inside;
* `Json.HasFiniteNumbers.exists_toLiteral_eq_ok` — finite numbers have expressions;
* `nesting_limits_agree` — what passes the check resolves without a nesting error, and no node lies
  deeper than the limit on steps.
-/

namespace SchemaModel

open Outcome

/-! ### What the check comes to -/

namespace Nesting

/-- From one value the check comes to another. -/
def Pending.Leads : Pending → Pending → Prop := Relation.ReflTransGen fun p q => q ∈ p.children

/-- **If the check passes, no value that it comes to is too deep.** -/
theorem checkAll_eq_ok {pending : List Pending} (h : checkAll pending = .ok ()) :
    ∀ p ∈ pending, ∀ q, p.Leads q → q.violation? = none := by
  induction pending using checkAll.induct with
  | case1 =>
    intro p mem
    cases mem
  | case2 p rest e violated =>
    rw [checkAll, violated] at h
    cases h
  | case3 p rest fine ih =>
    rw [checkAll, fine] at h
    have below := ih h
    intro r mem q leads
    rcases List.mem_cons.1 mem with rfl | later
    · rcases Relation.ReflTransGen.cases_head leads with rfl | ⟨c, child, leads⟩
      · exact fine
      · exact below c (by simp [child]) q leads
    · exact below r (by simp [later]) q leads

/-- If no value that it comes to is too deep, the check passes. -/
theorem checkAll_of_fine {pending : List Pending}
    (fine : ∀ p ∈ pending, ∀ q, p.Leads q → q.violation? = none) : checkAll pending = .ok () := by
  induction pending using checkAll.induct with
  | case1 => rw [checkAll]
  | case2 p rest e violated => cases violated.symm.trans (fine p List.mem_cons_self p .refl)
  | case3 p rest own ih =>
    rw [checkAll, own]
    refine ih fun q mem r leads => ?_
    rcases List.mem_append.1 mem with child | later
    · exact fine p List.mem_cons_self r (.head (List.mem_reverse.1 child) leads)
    · exact fine q (List.mem_cons_of_mem _ later) r leads

theorem violation?_of_le {p : Pending} (node : p.nodeDepth ≤ maxNodeDepth)
    (raw : p.rawDepth ≤ maxRawDepth) : p.violation? = none := by
  rw [Pending.violation?, if_neg (Nat.not_lt.2 node), if_neg (Nat.not_lt.2 raw)]

theorem violation?_eq_none {p : Pending} (h : p.violation? = none) :
    p.nodeDepth ≤ maxNodeDepth ∧ p.rawDepth ≤ maxRawDepth := by
  unfold Pending.violation? at h
  split at h
  · cases h
  · split at h
    · cases h
    · omega

theorem violation?_eq_some {p : Pending} {e : CompileError} (h : p.violation? = some e) :
    ∃ limit, e = .nestingTooDeep p.location limit := by
  unfold Pending.violation? at h
  split at h
  · cases h
    exact ⟨_, rfl⟩
  · split at h
    · cases h
      exact ⟨_, rfl⟩
    · cases h

/-- The check refuses a document in one way only. -/
theorem checkAll_eq_error {pending : List Pending} {e : CompileError}
    (h : checkAll pending = .error e) : ∃ l limit, e = .nestingTooDeep l limit := by
  induction pending using checkAll.induct with
  | case1 =>
    rw [checkAll] at h
    cases h
  | case2 p rest e' violated =>
    rw [checkAll, violated] at h
    cases h
    obtain ⟨limit, rfl⟩ := violation?_eq_some violated
    exact ⟨p.location, limit, rfl⟩
  | case3 p rest fine ih =>
    rw [checkAll, fine] at h
    exact ih h

namespace Pending

theorem mem_children_object {p q : Pending} {members : List (String × Json)}
    (hp : p.value = .object members) : q ∈ p.children ↔ ∃ m ∈ members, p.ofMember m = q := by
  rw [children, hp]
  exact List.mem_map

theorem mem_children_array {p q : Pending} {items : List Json} (hp : p.value = .array items) :
    q ∈ p.children ↔ ∃ (i : Nat) (v : Json), items[i]? = some v ∧ p.ofElement v i = q := by
  rw [children, hp, List.mem_mapIdx]
  simp [List.getElem?_eq_some_iff]

theorem ofMember_mem_children {p : Pending} {members : List (String × Json)}
    (hp : p.value = .object members) {m : String × Json} (mem : m ∈ members) :
    p.ofMember m ∈ p.children :=
  (mem_children_object hp).2 ⟨m, mem, rfl⟩

theorem ofElement_mem_children {p : Pending} {items : List Json} (hp : p.value = .array items)
    {i : Nat} {v : Json} (hi : items[i]? = some v) : p.ofElement v i ∈ p.children :=
  (mem_children_array hp).2 ⟨i, v, hi, rfl⟩

theorem role_ofMember (p : Pending) (m : String × Json) :
    (p.ofMember m).role = (p.role.ofMember m.1).1 := rfl

theorem nodeDepth_ofMember (p : Pending) (m : String × Json) :
    (p.ofMember m).nodeDepth = p.nodeDepth + (p.role.ofMember m.1).2 := rfl

theorem role_ofElement (p : Pending) (v : Json) (i : Nat) :
    (p.ofElement v i).role = p.role.ofElement.1 := rfl

theorem nodeDepth_ofElement (p : Pending) (v : Json) (i : Nat) :
    (p.ofElement v i).nodeDepth = p.nodeDepth + p.role.ofElement.2 := rfl

/-- From the value of a slot the check comes to the child node that a branch finds in it.  Either
the value or the child counts as one level deeper. -/
theorem exists_leads_of_finds {p : Pending} {b : Branch} {w : Json}
    (role : p.role = (Role.node.ofMember b.slot.key).1) (finds : b.Finds p.value w) :
    ∃ q, p.Leads q ∧ q.value = w ∧ q.role = .node ∧
      q.nodeDepth + (Role.node.ofMember b.slot.key).2 = p.nodeDepth + 1 := by
  cases b with
  | items => exact ⟨p, .refl, finds, role, rfl⟩
  | property name =>
    obtain ⟨nodes, hp, mem⟩ := finds
    change p.role = .nodeTable at role
    refine ⟨_, .single (ofMember_mem_children hp mem), rfl, ?_, ?_⟩
    · rw [role_ofMember, role]
      rfl
    · rw [nodeDepth_ofMember, role]
      rfl
  | prefixItem i | alternative i =>
    obtain ⟨nodes, hp, hi⟩ := finds
    change p.role = .nodeList at role
    refine ⟨_, .single (ofElement_mem_children hp hi), rfl, ?_, ?_⟩
    · rw [role_ofElement, role]
      rfl
    · rw [nodeDepth_ofElement, role]
      rfl

/-- **The check comes to a child node one level deeper.** -/
theorem exists_leads_of_child {p : Pending} (node : p.role = .node) {b : Branch} {w : Json}
    (child : p.value.Child b w) :
    ∃ q, p.Leads q ∧ q.value = w ∧ q.role = .node ∧ q.nodeDepth = p.nodeDepth + 1 := by
  cases hp : p.value with
  | object members =>
    rw [hp] at child
    obtain ⟨u, mem, finds⟩ := Json.child_iff_finds.1 child
    have role : (p.ofMember (b.slot.key, u)).role = (p.role.ofMember b.slot.key).1 :=
      role_ofMember p _
    have depth : (p.ofMember (b.slot.key, u)).nodeDepth =
        p.nodeDepth + (p.role.ofMember b.slot.key).2 := nodeDepth_ofMember p _
    rw [node] at role depth
    obtain ⟨q, leads, hq, hrole, hdepth⟩ := exists_leads_of_finds role finds
    exact ⟨q, .head (ofMember_mem_children hp mem) leads, hq, hrole, by omega⟩
  | _ =>
    rw [hp] at child
    exact child.elim

theorem exists_leads_of_walk {p : Pending} (node : p.role = .node) {bs : List Branch} {w : Json}
    (walk : Walk Json.Child p.value bs w) :
    ∃ q, p.Leads q ∧ q.value = w ∧ q.nodeDepth = p.nodeDepth + bs.length := by
  generalize hv : p.value = v at walk
  induction walk generalizing p with
  | here v => exact ⟨p, .refl, hv, rfl⟩
  | down child _ ih =>
    obtain ⟨q, leads, hq, role, depth⟩ := exists_leads_of_child node (hv ▸ child)
    obtain ⟨r, leads', hr, depth'⟩ := ih role hq
    refine ⟨r, leads.trans leads', hr, ?_⟩
    rw [depth', depth, List.length_cons]
    omega

/-- **The check comes to every value inside**, at its raw depth. -/
theorem exists_leads_of_inside {p : Pending} {k : Nat} {w : Json} (inside : p.value.Inside k w) :
    ∃ q, p.Leads q ∧ q.value = w ∧ q.rawDepth = p.rawDepth + k := by
  generalize hv : p.value = v at inside
  induction inside generalizing p with
  | here v => exact ⟨p, .refl, hv, rfl⟩
  | @deeper v u w k part _ ih =>
    obtain ⟨q, child, hq, depth⟩ : ∃ q ∈ p.children, q.value = u ∧ q.rawDepth = p.rawDepth + 1 := by
      cases v with
      | array items =>
        obtain ⟨i, hi⟩ := List.mem_iff_getElem?.1 part
        exact ⟨_, ofElement_mem_children hv hi, rfl, rfl⟩
      | object members =>
        obtain ⟨key, mem⟩ := part
        exact ⟨_, ofMember_mem_children hv mem, rfl, rfl⟩
      | _ => exact part.elim
    obtain ⟨r, leads, hr, depth'⟩ := ih hq
    refine ⟨r, .head child leads, hr, ?_⟩
    rw [depth', depth]
    omega

end Pending

/-- A document that passes the check has no node deeper than the limit on nodes. -/
theorem length_le_of_check {d w : Json} {bs : List Branch} (h : check d = .ok ())
    (walk : Walk Json.Child d bs w) : bs.length ≤ maxNodeDepth := by
  obtain ⟨q, leads, -, depth⟩ := Pending.exists_leads_of_walk (p := Pending.root d) rfl walk
  have bound := (violation?_eq_none (checkAll_eq_ok h _ List.mem_cons_self q leads)).1
  rw [depth] at bound
  exact Nat.le_trans (Nat.le_add_left _ _) bound

/-- A document that passes the check has no value deeper than the limit on steps. -/
theorem inside_le_of_check {d w : Json} {k : Nat} (h : check d = .ok ()) (inside : d.Inside k w) :
    k ≤ maxRawDepth := by
  obtain ⟨q, leads, -, depth⟩ := Pending.exists_leads_of_inside (p := Pending.root d) inside
  have bound := (violation?_eq_none (checkAll_eq_ok h _ List.mem_cons_self q leads)).2
  rw [depth] at bound
  exact Nat.le_trans (Nat.le_add_left _ _) bound

end Nesting

/-! ### Nodes and their defaults inside the document -/

theorem Schema.exists_inside_of_walk {v : Json} {s n : Schema} {bs : List Branch}
    (h : ofJson v = .ok s) (walk : Walk Schema.Child s bs n) :
    ∃ k w, bs.length ≤ k ∧ v.Inside k w ∧ ofJson w = .ok n := by
  induction walk generalizing v with
  | here s => exact ⟨0, v, Nat.le_refl 0, .here v, h⟩
  | down child _ ih =>
    obtain ⟨k, u, inside, hu⟩ := exists_inside_of_child h child
    obtain ⟨m, w, deep, inside', hw⟩ := ih hu
    refine ⟨k + 1 + m, w, ?_, inside.trans inside', hw⟩
    rw [List.length_cons]
    omega

/-- The default of a node fills its slot, and null is no default. -/
theorem Schema.slot_of_default {v dflt : Json} {s : Schema} (h : ofJson v = .ok s)
    (hs : s.default = some dflt) : v.slots.lookup .default = some dflt ∧ dflt ≠ .null := by
  have gives := ofJson_gives h .default
  cases hl : v.slots.lookup Slot.default with
  | none =>
    rw [hl] at gives
    cases (Option.some.inj gives).trans hs
  | some u =>
    rw [hl] at gives
    have same : defaultValue u = some dflt := (Except.ok.inj gives).trans hs
    cases u <;> cases same <;> exact ⟨rfl, by simp⟩

/-- The default of a node stands in the value that the node is decoded from. -/
theorem Schema.part_of_default {v dflt : Json} {s : Schema} (h : ofJson v = .ok s)
    (hs : s.default = some dflt) : v.Part dflt :=
  Json.part_of_mem_slots (mem_of_lookup (slot_of_default h hs).1)

/-! ### Expressions of finite numbers -/

namespace Json

theorem itemLiterals_eq_ok {items : List Json} (each : ∀ v ∈ items, ∃ s, v.toLiteral = .ok s) :
    ∃ ss, itemLiterals items = .ok ss := by
  induction items with
  | nil => exact ⟨[], rfl⟩
  | cons v rest ih =>
    obtain ⟨s, hs⟩ := each v List.mem_cons_self
    obtain ⟨ss, hss⟩ := ih fun u mem => each u (List.mem_cons_of_mem _ mem)
    exact ⟨s :: ss, bind_eq_ok.2 ⟨s, hs, bind_eq_ok.2 ⟨ss, hss, rfl⟩⟩⟩

theorem memberLiterals_eq_ok {members : List (String × Json)}
    (each : ∀ key v, (key, v) ∈ members → ∃ s, v.toLiteral = .ok s) :
    ∃ ss, memberLiterals members = .ok ss := by
  induction members with
  | nil => exact ⟨[], rfl⟩
  | cons m rest ih =>
    obtain ⟨key, v⟩ := m
    obtain ⟨s, hs⟩ := each key v List.mem_cons_self
    obtain ⟨ss, hss⟩ := ih fun key u mem => each key u (List.mem_cons_of_mem _ mem)
    exact ⟨_ :: ss, bind_eq_ok.2 ⟨s, hs, bind_eq_ok.2 ⟨ss, hss, rfl⟩⟩⟩

/-- **A value whose numbers are finite has an expression.** -/
theorem HasFiniteNumbers.exists_toLiteral_eq_ok {v : Json} (finite : v.HasFiniteNumbers) :
    ∃ s, v.toLiteral = .ok s := by
  induction v using Json.induction with
  | step v ih =>
    obtain ⟨own, parts⟩ := hasFiniteNumbers_iff.1 finite
    have part : ∀ u, v.Part u → ∃ s, u.toLiteral = .ok s :=
      fun u part => ih 0 u (.deeper part (.here u)) (parts u part)
    cases v with
    | null => exact ⟨_, rfl⟩
    | bool b => cases b <;> exact ⟨_, rfl⟩
    | string s => exact ⟨_, rfl⟩
    | number n =>
      exact ⟨n.text, by rw [toLiteral, if_pos (own n rfl)]⟩
    | array items =>
      obtain ⟨ss, hss⟩ := itemLiterals_eq_ok part
      exact ⟨_, map_eq_ok.2 ⟨ss, hss, rfl⟩⟩
    | object members =>
      obtain ⟨ss, hss⟩ := memberLiterals_eq_ok fun key u mem => part u ⟨key, mem⟩
      exact ⟨_, map_eq_ok.2 ⟨ss, hss, rfl⟩⟩

end Json

/-! ### Compilations that fail -/

theorem Schema.exists_deep_of_resolve_error {options : Options} {root : Schema} {l : Location}
    {limit : Nat} (h : root.resolve options = .error (.nestingTooDeep l limit)) :
    ∃ bs n, Walk Schema.Child root bs n ∧ bs.length = Nesting.maxNodeDepth + 1 := by
  obtain ⟨bs, n, walk, ⟨deep, -⟩ | ⟨items, prefixItems, oneOf, -, undescribed⟩⟩ :=
    exists_origin_of_resolve_error h
  · exact ⟨bs, n, walk.mono UsedChild.child, deep⟩
  · obtain ⟨-, name, same, -⟩ := Typed.describe_eq_error undescribed
    cases same

/-- The search for definitions never finds a node too deep. -/
theorem Schema.resolve_eq_error_of_compile {options : Options} {root : Schema} {l : Location}
    {limit : Nat} (h : root.compile options = .error (.nestingTooDeep l limit)) :
    root.resolve options = .error (.nestingTooDeep l limit) := by
  rcases bind_eq_error.1 h with unresolved | ⟨r, resolved, h⟩
  · exact unresolved
  · rcases bind_eq_error.1 h with failed | ⟨_, -, done⟩
    · obtain ⟨bs, n, -, blamed⟩ := (Resolution.isFormOf resolved).exists_blamed_of_visit_error
        (map_eq_error.1 failed) options.spellings
      exact absurd (blamed 0).2.2 (by decide)
    · cases done

/-- Only a default value can lack an expression. -/
theorem Schema.exists_default_of_compile_error {options : Options} {root : Schema} {l : Location}
    {literal : String} (h : root.compile options = .error (.unsupportedLiteral l literal)) :
    ∃ bs n v, Walk Schema.Child root bs n ∧ n.default = some v ∧ v.toLiteral = .error literal := by
  rcases bind_eq_error.1 h with unresolved | ⟨r, resolved, h⟩
  · obtain ⟨bs, n, -, ⟨-, same⟩ | ⟨items, prefixItems, oneOf, -, undescribed⟩⟩ :=
      exists_origin_of_resolve_error unresolved
    · cases same
    · obtain ⟨-, name, same, -⟩ := Typed.describe_eq_error undescribed
      cases same
  · rcases bind_eq_error.1 h with failed | ⟨_, -, done⟩
    · obtain ⟨bs, n, walk, blamed⟩ := (Resolution.isFormOf resolved).exists_blamed_of_visit_error
        (map_eq_error.1 failed) options.spellings
      obtain ⟨-, v, hv, unwritten⟩ := blamed 0
      exact ⟨bs, n, v, walk.mono UsedChild.child, hv, unwritten⟩
    · cases done

/-- A compilation of nodes fails at a place. -/
theorem Schema.located_of_compile_error {options : Options} {root : Schema} {e : CompileError}
    (h : root.compile options = .error e) : e.location?.isSome := by
  rcases bind_eq_error.1 h with unresolved | ⟨r, resolved, h⟩
  · obtain ⟨bs, n, -, ⟨-, rfl⟩ | ⟨items, prefixItems, oneOf, -, undescribed⟩⟩ :=
      exists_origin_of_resolve_error unresolved
    · rfl
    · obtain ⟨-, name, rfl, -⟩ := Typed.describe_eq_error undescribed
      rfl
  · rcases bind_eq_error.1 h with failed | ⟨_, -, done⟩
    · obtain ⟨bs, n, walk, blamed⟩ := (Resolution.isFormOf resolved).exists_blamed_of_visit_error
        (map_eq_error.1 failed) options.spellings
      cases e with
      | schemaFormat => exact (blamed 0).elim
      | _ => rfl
    · cases done

/-- A document that passes the checks and is read compiles as its nodes do. -/
theorem compile_eq_of_read {options : Options} {validator : Validator} {d : Json} {root : Schema}
    (passed : Nesting.check d = .ok ()) (valid : validator d = .ok ())
    (decoded : Schema.ofJson d = .ok root) :
    compile options validator d = root.compile options := by
  rw [compile, passed, valid, readDocument, decoded]
  rfl

/-- A document that nests within the limits and is refused or not read is malformed. -/
theorem exists_schemaFormat_of_unread {options : Options} {validator : Validator} {d : Json}
    (passed : Nesting.check d = .ok ())
    (unread : ¬ (validator d = .ok () ∧ ∃ root, Schema.ofJson d = .ok root)) :
    ∃ detail, compile options validator d = .error (.schemaFormat detail) := by
  rw [compile, passed, readDocument]
  rcases ok_or_error (validator d) with ⟨⟨⟩, valid⟩ | ⟨detail, invalid⟩
  · rcases ok_or_error (Schema.ofJson d) with decoded | ⟨e, failed⟩
    · exact absurd ⟨valid, decoded⟩ unread
    · rw [valid, failed]
      exact ⟨e.message, rfl⟩
  · rw [invalid]
    exact ⟨detail, rfl⟩

/-- **A compilation fails at the check, as malformed, or at the nodes of the document.** -/
theorem compile_eq_error {options : Options} {validator : Validator} {d : Json} {e : CompileError}
    (h : compile options validator d = .error e) :
    Nesting.check d = .error e ∨ (∃ detail, e = .schemaFormat detail) ∨
      ∃ root, Nesting.check d = .ok () ∧ validator d = .ok () ∧ Schema.ofJson d = .ok root ∧
        root.compile options = .error e := by
  rcases bind_eq_error.1 h with refused | ⟨⟨⟩, passed, h⟩
  · exact .inl refused
  refine .inr ?_
  rcases bind_eq_error.1 h with invalid | ⟨⟨⟩, valid, h⟩
  · obtain ⟨detail, -, rfl⟩ := mapError_eq_error.1 invalid
    exact .inl ⟨detail, rfl⟩
  rcases bind_eq_error.1 h with unread | ⟨root, decoded, failed⟩
  · obtain ⟨e', -, rfl⟩ := mapError_eq_error.1 unread
    exact .inl ⟨e'.message, rfl⟩
  · exact .inr ⟨root, passed, mapError_eq_ok.1 valid, mapError_eq_ok.1 decoded, failed⟩

theorem Json.Describes.resolve_ne_nestingTooDeep {d : Json} {root : Schema} (h : d.Describes root)
    (passed : Nesting.check d = .ok ()) (options : Options) (l : Location) (limit : Nat) :
    root.resolve options ≠ .error (.nestingTooDeep l limit) := by
  intro failed
  obtain ⟨bs, n, walk, deep⟩ := Schema.exists_deep_of_resolve_error failed
  obtain ⟨w, walk', -⟩ := h.exists_walk walk
  have bound := Nesting.length_le_of_check passed walk'
  omega

theorem Schema.length_le_of_check {d : Json} {root n : Schema} {bs : List Branch}
    (passed : Nesting.check d = .ok ()) (h : ofJson d = .ok root)
    (walk : Walk Schema.Child root bs n) : bs.length ≤ Nesting.maxRawDepth := by
  obtain ⟨k, w, deep, inside, -⟩ := exists_inside_of_walk h walk
  exact Nat.le_trans deep (Nesting.inside_le_of_check passed inside)

/-- **The two limits on nesting agree.**  A document that passes the check resolves without a
nesting error if it is accepted, and in any case its nodes and their typed forms are no deeper than
the limit on steps; the compilation reports the nesting errors of the check and no others, and it
finds an expression for every default. -/
theorem nesting_limits_agree (d : Json) (document : d.IsDocument) (options : Options) :
    (Nesting.check d = .ok () → ∀ root, Schema.ofJson d = .ok root →
      (Validator.metaSchema d = .ok () →
        ∀ l limit, root.resolve options ≠ .error (.nestingTooDeep l limit)) ∧
      (∀ bs n, Walk Schema.Child root bs n → bs.length ≤ Nesting.maxRawDepth) ∧
      ∀ r bs t, root.resolve options = .ok r → Walk Typed.Child r.root bs t →
        bs.length ≤ Nesting.maxRawDepth) ∧
    (∀ l limit, compile options Validator.metaSchema d = .error (.nestingTooDeep l limit) ↔
      Nesting.check d = .error (.nestingTooDeep l limit)) ∧
    ∀ l literal,
      compile options Validator.metaSchema d ≠ .error (.unsupportedLiteral l literal) := by
  have describes : ∀ {root}, Validator.metaSchema d = .ok () → Schema.ofJson d = .ok root →
      d.Describes root := fun accepted decoded =>
    ⟨MetaSchema.metaSchema_eq_ok.1 accepted, document.distinct, decoded⟩
  refine ⟨fun passed root decoded => ⟨fun accepted => ?_, fun bs n walk => ?_, ?_⟩, ?_, ?_⟩
  · exact (describes accepted decoded).resolve_ne_nestingTooDeep passed options
  · exact Schema.length_le_of_check passed decoded walk
  · intro r bs t resolved walk
    obtain ⟨n, walk', -⟩ := (Resolution.isFormOf resolved).walk walk
    exact Schema.length_le_of_check passed decoded (walk'.mono Schema.UsedChild.child)
  · intro l limit
    constructor
    · intro h
      rcases compile_eq_error h with refused | ⟨detail, same⟩ | ⟨root, passed, accepted, decoded, h⟩
      · exact refused
      · cases same
      · exact absurd (Schema.resolve_eq_error_of_compile h)
          ((describes accepted decoded).resolve_ne_nestingTooDeep passed options l limit)
    · exact fun refused => bind_eq_error.2 (.inl refused)
  · intro l literal h
    rcases compile_eq_error h with refused | ⟨detail, same⟩ | ⟨root, -, accepted, decoded, h⟩
    · obtain ⟨l', limit, same⟩ := Nesting.checkAll_eq_error refused
      cases same
    · cases same
    · obtain ⟨bs, n, v, walk, hv, unwritten⟩ := Schema.exists_default_of_compile_error h
      obtain ⟨k, w, -, inside, hw⟩ := Schema.exists_inside_of_walk decoded walk
      have deeper := inside.trans (.deeper (Schema.part_of_default hw hv) (.here v))
      obtain ⟨s, written⟩ := (document.finite.inside deeper).exists_toLiteral_eq_ok
      rw [written] at unwritten
      cases unwritten

/-- A list of counters that start at five. -/
def countersDocument : Json :=
  .object [("type", .string "array"),
    ("items", .object [("type", .string "integer"), ("default", .number (.int 5))])]

/-- The nodes of that document. -/
def counters : Schema :=
  { Schema.ofTypeName "array" with
    items := some { Schema.ofTypeName "integer" with default := some (.number (.int 5)) } }

theorem countersDocument_resolves :
    countersDocument.IsDocument ∧ Nesting.check countersDocument = .ok () ∧
      Schema.ofJson countersDocument = .ok counters ∧
      Validator.metaSchema countersDocument = .ok () ∧
      (∀ l limit, counters.resolve {} ≠ .error (.nestingTooDeep l limit)) ∧
      (∀ bs n, Walk Schema.Child counters bs n → bs.length ≤ Nesting.maxRawDepth) ∧
      (∀ l limit, compile {} Validator.metaSchema countersDocument ≠
        .error (.nestingTooDeep l limit)) ∧
      ∀ l literal, compile {} Validator.metaSchema countersDocument ≠
        .error (.unsupportedLiteral l literal) := by
  have text : ∀ s, (Json.string s).IsDocument := fun s =>
    Json.isDocument_leaf trivial (fun n same => by cases same) fun u part => part
  have five : (Json.number (.int 5)).IsDocument := Json.isDocument_number rfl
  have items : (Json.object [("type", .string "integer"),
      ("default", .number (.int 5))]).IsDocument :=
    Json.isDocument_object (by decide) (by simp [text, five])
  have document : countersDocument.IsDocument :=
    Json.isDocument_object (by decide) (by simp [text, items])
  have passed : Nesting.check countersDocument = .ok () := by cbv
  have decoded : Schema.ofJson countersDocument = .ok counters := rfl
  have accepted : Validator.metaSchema countersDocument = .ok () := rfl
  obtain ⟨sound, agree, unwritten⟩ := nesting_limits_agree countersDocument document {}
  obtain ⟨unrefused, short, -⟩ := sound passed counters decoded
  refine ⟨document, passed, decoded, accepted, unrefused accepted, short, ?_, unwritten⟩
  intro l limit refused
  cases passed.symm.trans ((agree l limit).1 refused)

end SchemaModel
