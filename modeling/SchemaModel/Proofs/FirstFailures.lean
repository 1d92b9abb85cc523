import SchemaModel.Proofs.ErrorPaths
import SchemaModel.Proofs.NodeCriteria

/-!
# The first failure of a decoding

A written node is read member by member, and the first member that fails ends the reading.  It fails
because its slot has been filled before, or because its value does not read there; a value that holds
child nodes reads unless one of them does not decode, and then the first of these decides.  So the
error of a node is that of a child, moved behind the branch to it, and so on downwards, and nothing
that stands later in the document has a say in it.

* `Schema.memberError?` — the error of a member, given the members before it;
* `Schema.NoneFails`, `Schema.FailsFirst` — no member fails, and one fails first;
* `Schema.ofJson_eq_error` — an object that does not decode has a first failing member, or no type;
* `Branch.FirstFails`, `Json.FailsThrough` — the first child node that does not decode, in a value
  and in an object;
* `Branch.FirstFails.read_eq` — the error of a value that holds child nodes;
* `decode_error_is_moved` — the error of an object is that of a node in it, moved.
-/

namespace SchemaModel

open Outcome

namespace Schema

/-! ### Members that fail -/

/-- The error of a member, given the members before it. -/
def memberError? (before : List (String × Json)) (m : String × Json) : Option DecodeError :=
  (Slot.ofKey? m.1).bind fun slot =>
    if slot ∈ (Json.object before).slots.map Prod.fst then some (.here (.duplicateField slot.key))
    else (error? (slot.read m.2)).map (·.under (.key m.1))

/-- No member fails after those before it. -/
def NoneFails (members : List (String × Json)) : Prop :=
  ∀ before m later, members = before ++ m :: later → memberError? before m = none

/-- A member fails and none before it does. -/
structure FailsFirst (members before : List (String × Json)) (m : String × Json)
    (later : List (String × Json)) (e : DecodeError) : Prop where
  split : members = before ++ m :: later
  earlier : NoneFails before
  error : memberError? before m = some e

theorem fillMembers_append (d : Draft) (ms ms' : List (String × Json)) :
    fillMembers d (ms ++ ms') = fillMembers d ms >>= (fillMembers · ms') := by
  induction ms generalizing d with
  | nil => rfl
  | cons m ms ih =>
    obtain ⟨key, v⟩ := m
    rw [List.cons_append, fillMembers_cons, fillMembers_cons]
    cases Slot.ofKey? key with
    | none => exact ih d
    | some slot =>
      simp only
      split
      · rfl
      · cases Decode.at_ (.key key) (d.fill slot v (readings v)) with
        | error e => rfl
        | ok d₁ => exact ih d₁

/-- The slots that have been filled are those of the members read so far. -/
theorem isSome_get_iff {before : List (String × Json)} {d : Draft}
    (read : fillMembers {} before = .ok d) (slot : Slot) :
    (d.get slot).isSome ↔ slot ∈ (Json.object before).slots.map Prod.fst := by
  have filled := (fillMembers_eq_ok read).1 slot
  cases found : (Json.object before).slots.lookup slot with
  | none =>
    rw [found] at filled
    have empty : d.get slot = none := filled.trans (Draft.get_empty slot)
    simp [empty, lookup_eq_none.1 found]
  | some v =>
    rw [found] at filled
    obtain ⟨x, -, given⟩ := filled
    have mem := List.mem_map_of_mem (f := Prod.fst) (mem_of_lookup found)
    simpa [given] using ⟨v, mem_of_lookup found⟩

/-- Reading one more member ends with its error, if it has one. -/
theorem error?_fillMembers_singleton {before : List (String × Json)} {d : Draft}
    (read : fillMembers {} before = .ok d) (m : String × Json) :
    error? (fillMembers d [m]) = memberError? before m := by
  obtain ⟨key, v⟩ := m
  rw [fillMembers_cons, memberError?]
  cases Slot.ofKey? key with
  | none => rfl
  | some slot =>
    simp only [isSome_get_iff read, Option.bind_some]
    split
    · rfl
    · cases reads : slot.read v with
      | error e =>
        rw [Draft.fill_eq_error.2 reads]
        rfl
      | ok x =>
        obtain ⟨d', filled⟩ := exists_fill (d := d) reads
        rw [filled]
        rfl

theorem noneFails_concat {members : List (String × Json)} {m : String × Json} :
    NoneFails (members ++ [m]) ↔ NoneFails members ∧ memberError? members m = none := by
  constructor
  · intro h
    refine ⟨?_, h members m [] rfl⟩
    intro before m' later split
    exact h before m' (later ++ [m]) (by rw [split, List.append_assoc, List.cons_append])
  · rintro ⟨earlier, last⟩ before m' later split
    rcases List.eq_nil_or_concat later with rfl | ⟨later, x, rfl⟩
    · obtain ⟨rfl, same⟩ := List.append_inj' split rfl
      cases same
      exact last
    · have longer : members ++ [m] = (before ++ m' :: later) ++ [x] := by simpa using split
      exact earlier before m' later (List.append_inj' longer rfl).1

/-- **An object is read to its end exactly if no member fails.** -/
theorem noneFails_iff {members : List (String × Json)} :
    NoneFails members ↔ ∃ d, fillMembers {} members = .ok d := by
  induction members using List.reverseRecOn with
  | nil =>
    refine ⟨fun _ => ⟨{}, rfl⟩, ?_⟩
    intro _ before m later split
    cases before <;> cases split
  | append_singleton members m ih =>
    rw [noneFails_concat, ih, fillMembers_append]
    constructor
    · rintro ⟨⟨d, read⟩, last⟩
      rw [read]
      exact error?_eq_none.1 ((error?_fillMembers_singleton read m).trans last)
    · rintro ⟨d', h⟩
      obtain ⟨d, read, h⟩ := bind_eq_ok.1 h
      rw [← error?_fillMembers_singleton read]
      exact ⟨⟨d, read⟩, error?_eq_none.2 ⟨d', h⟩⟩

/-- A member that fails first ends the reading, whatever comes later. -/
theorem FailsFirst.fillMembers_eq {members before later : List (String × Json)}
    {m : String × Json} {e : DecodeError} (h : FailsFirst members before m later e) :
    fillMembers {} members = .error e := by
  obtain ⟨d, read⟩ := noneFails_iff.1 h.earlier
  have failed : fillMembers d [m] = .error e := by
    rw [← error?_eq_some, error?_fillMembers_singleton read]
    exact h.error
  have split : members = before ++ ([m] ++ later) := h.split
  rw [split, fillMembers_append, read]
  show fillMembers d ([m] ++ later) = _
  rw [fillMembers_append, failed]
  rfl

theorem exists_failsFirst {members : List (String × Json)} {e : DecodeError}
    (h : fillMembers {} members = .error e) :
    ∃ before m later, FailsFirst members before m later e := by
  induction members using List.reverseRecOn with
  | nil => cases h
  | append_singleton members m ih =>
    rw [fillMembers_append] at h
    rcases bind_eq_error.1 h with earlier | ⟨d, read, last⟩
    · obtain ⟨before, m', later, first⟩ := ih earlier
      refine ⟨before, m', later ++ [m], ?_, first.earlier, first.error⟩
      rw [first.split, List.append_assoc, List.cons_append]
    · refine ⟨members, m, [], rfl, noneFails_iff.2 ⟨d, read⟩, ?_⟩
      rw [← error?_fillMembers_singleton read]
      exact error?_eq_some.2 last

/-- The error of a node without a type. -/
def typeMissing : DecodeError := .here (.missingField Slot.type.key)

/-- **An object that does not decode has a first failing member**, and its error is that of the
object, or it has none and lacks a type. -/
theorem ofJson_eq_error {members : List (String × Json)} {e : DecodeError} :
    ofJson (.object members) = .error e ↔
      (∃ before m later, FailsFirst members before m later e) ∨
        (NoneFails members ∧ Slot.type ∉ (Json.object members).slots.map Prod.fst ∧
          e = typeMissing) := by
  have parts : ofJson (.object members) = fillMembers {} members >>= Draft.finish := rfl
  rw [parts, bind_eq_error]
  refine or_congr ⟨exists_failsFirst, ?_⟩ ?_
  · rintro ⟨before, m, later, first⟩
    exact first.fillMembers_eq
  · rw [noneFails_iff]
    constructor
    · rintro ⟨d, read, h⟩
      obtain ⟨untyped, rfl⟩ := Draft.finish_eq_error.1 h
      have empty : ¬ (d.get .type).isSome := Option.not_isSome_iff_eq_none.2 untyped
      exact ⟨⟨d, read⟩, (isSome_get_iff read .type).not.1 empty, rfl⟩
    · rintro ⟨⟨d, read⟩, unfilled, rfl⟩
      have empty := (isSome_get_iff read .type).not.2 unfilled
      have untyped : d.type = none := Option.not_isSome_iff_eq_none.1 empty
      exact ⟨d, read, Draft.finish_eq_error.2 ⟨untyped, rfl⟩⟩

/-- The error of a member is not that of a missing type. -/
theorem memberError?_ne_typeMissing (before : List (String × Json)) (m : String × Json) :
    memberError? before m ≠ some typeMissing := by
  rw [memberError?]
  cases Slot.ofKey? m.1 with
  | none => nofun
  | some slot =>
    simp only [Option.bind_some]
    split
    · nofun
    · cases slot.read m.2 <;> nofun

end Schema

/-! ### Child nodes that fail -/

/-- A value that does not read as nodes holds a first one that does not decode, or it is no list. -/
theorem Schema.exists_first_of_nodes {u : Json} {e : DecodeError}
    (h : unlessNull u (readings u).nodes = .error e) :
    (∃ before c after, u = .array (before ++ c :: after) ∧
        (∀ w ∈ before, ∃ s, ofJson w = .ok s) ∧ ¬ ∃ s, ofJson c = .ok s) ∨
      e = .unexpected u .sequence := by
  obtain ⟨notNull, failed⟩ := unlessNull_eq_error.1 h
  cases u with
  | array items =>
    obtain ⟨before, c, after, e', rfl, decoded, undecoded, -⟩ :=
      exists_first_of_nodeElements failed
    exact .inl ⟨before, c, after, rfl, decoded, not_exists_ok undecoded⟩
  | null => exact absurd rfl notNull
  | _ => exact .inr (Except.error.inj failed).symm

/-- A branch leads to the first child node in the value of its slot that does not decode. -/
def Branch.FirstFails : Branch → Json → Json → Prop
  | .items, u, c => u = c ∧ c ≠ .null ∧ ¬ ∃ s, Schema.ofJson c = .ok s
  | .prefixItem i, u, c | .alternative i, u, c =>
    ∃ before after, u = .array (before ++ c :: after) ∧ before.length = i ∧
      (∀ w ∈ before, ∃ s, Schema.ofJson w = .ok s) ∧ ¬ ∃ s, Schema.ofJson c = .ok s
  | .property name, u, c =>
    ∃ before after, u = .object (before ++ (name, c) :: after) ∧
      (∀ m ∈ before, ∃ s, Schema.ofJson m.2 = .ok s) ∧ ¬ ∃ s, Schema.ofJson c = .ok s

namespace Branch

theorem FirstFails.exists_error {b : Branch} {u c : Json} (h : b.FirstFails u c) :
    ∃ e, Schema.ofJson c = .error e := by
  have failed : ¬ ∃ s, Schema.ofJson c = .ok s := by
    cases b with
    | items => exact h.2.2
    | prefixItem i | alternative i =>
      obtain ⟨before, after, -, -, -, failed⟩ := h
      exact failed
    | property name =>
      obtain ⟨before, after, -, -, failed⟩ := h
      exact failed
  exact (ok_or_error _).resolve_left failed

/-- **The error of a value that holds child nodes is that of the first one that fails**, seen from
the value. -/
theorem FirstFails.read_eq {b : Branch} {u c : Json} {e : DecodeError} (h : b.FirstFails u c)
    (failed : Schema.ofJson c = .error e) : b.slot.read u = .error (e.behind b.inner) := by
  cases b with
  | items =>
    obtain ⟨rfl, notNull, -⟩ := h
    exact Schema.unlessNull_eq_error.2 ⟨notNull, failed⟩
  | prefixItem i | alternative i =>
    obtain ⟨before, after, rfl, rfl, decoded, -⟩ := h
    have first : Schema.nodeElements 0 (before ++ c :: after) =
        .error (e.under (.index (0 + before.length))) :=
      Schema.nodeElements_eq_of_first decoded failed 0
    rw [Nat.zero_add] at first
    exact map_eq_error.2 first
  | property name =>
    obtain ⟨before, after, rfl, decoded, -⟩ := h
    exact Schema.nodeMembers_eq_of_first decoded failed

/-- A value that does not read where child nodes stand holds a first one that fails, or it is of
another kind. -/
theorem exists_firstFails {b : Branch} {u : Json} {e : DecodeError}
    (h : b.slot.read u = .error e) :
    (∃ (b' : Branch) (c : Json), b'.slot = b.slot ∧ b'.FirstFails u c) ∨
      ∃ expected, e = .unexpected u expected := by
  cases b with
  | items =>
    obtain ⟨notNull, failed⟩ := Schema.unlessNull_eq_error.1 h
    exact .inl ⟨.items, u, rfl, rfl, notNull, not_exists_ok failed⟩
  | prefixItem i =>
    rcases Schema.exists_first_of_nodes h with ⟨before, c, after, rfl, first⟩ | other
    · exact .inl ⟨.prefixItem before.length, c, rfl, before, after, rfl, rfl, first⟩
    · exact .inr ⟨.sequence, other⟩
  | alternative i =>
    rcases Schema.exists_first_of_nodes h with ⟨before, c, after, rfl, first⟩ | other
    · exact .inl ⟨.alternative before.length, c, rfl, before, after, rfl, rfl, first⟩
    · exact .inr ⟨.sequence, other⟩
  | property name =>
    cases u with
    | object members =>
      obtain ⟨before, name', c, after, e', rfl, decoded, undecoded, -⟩ :=
        Schema.exists_first_of_nodeMembers h
      exact .inl ⟨.property name', c, rfl, before, after, rfl, decoded, not_exists_ok undecoded⟩
    | _ => exact .inr ⟨.map, (Except.error.inj h).symm⟩

end Branch

/-- The first failing member of an object fails because of a child node that a branch leads to. -/
def Json.FailsThrough : Json → Branch → Json → Prop
  | .object members, b, c =>
    ∃ before u later, members = before ++ (b.slot.key, u) :: later ∧ Schema.NoneFails before ∧
      b.slot.key ∉ before.map Prod.fst ∧ b.FirstFails u c
  | _, _, _ => False

/-- A member under a new key of a slot of child nodes fails if its value does not read there. -/
theorem Branch.memberError?_eq {b : Branch} {before : List (String × Json)} {u : Json}
    (fresh : b.slot.key ∉ before.map Prod.fst) :
    Schema.memberError? before (b.slot.key, u) =
      (error? (b.slot.read u)).map (·.under (.key b.slot.key)) := by
  have unfilled : b.slot ∉ (Json.object before).slots.map Prod.fst := by
    intro filled
    obtain ⟨⟨slot, v⟩, mem, rfl⟩ := List.mem_map.1 filled
    obtain ⟨key, listed, hkey⟩ := Json.mem_slots_object.1 mem
    obtain rfl := Branch.ofKey?_eq_slot.1 hkey
    exact fresh (List.mem_map_of_mem (f := Prod.fst) listed)
  rw [Schema.memberError?, Slot.ofKey?_key, Option.bind_some, if_neg unfilled]

namespace Json.FailsThrough

/-- **The error of an object is that of the child because of which it fails**, moved behind the
branch. -/
theorem ofJson_eq {v c : Json} {b : Branch} {e : DecodeError} (h : v.FailsThrough b c)
    (failed : Schema.ofJson c = .error e) : Schema.ofJson v = .error (e.behind b.steps) := by
  cases v with
  | object members =>
    obtain ⟨before, u, later, split, earlier, fresh, first⟩ := h
    refine Schema.ofJson_eq_error.2 (.inl ⟨before, (b.slot.key, u), later, split, earlier, ?_⟩)
    rw [Branch.memberError?_eq fresh, first.read_eq failed]
    exact congrArg some (DecodeError.under_key_behind b e)
  | _ => exact h.elim

theorem exists_error {v c : Json} {b : Branch} (h : v.FailsThrough b c) :
    ∃ e, Schema.ofJson c = .error e := by
  cases v with
  | object members =>
    obtain ⟨before, u, later, -, -, -, first⟩ := h
    exact first.exists_error
  | _ => exact h.elim

/-- At any depth, the error is that of the node that the branches lead to. -/
theorem ofJson_eq_of_walk {v w : Json} {bs : List Branch} {e : DecodeError}
    (walk : Walk Json.FailsThrough v bs w) (failed : Schema.ofJson v = .error e) :
    ∃ e', Schema.ofJson w = .error e' ∧ e = e'.behind (bs.flatMap Branch.steps) := by
  induction walk generalizing e with
  | here v => exact ⟨e, failed, rfl⟩
  | @down v c w b bs child _ ih =>
    obtain ⟨e₁, failed₁⟩ := exists_error child
    obtain ⟨e', failed', rfl⟩ := ih failed₁
    cases failed.symm.trans (child.ofJson_eq failed₁)
    refine ⟨e', failed', ?_⟩
    rw [List.flatMap_cons, DecodeError.behind_append]

end Json.FailsThrough

open Schema in
/-- **The error of an object is decided by its first failing member**, whatever comes later; that a
type is missing is only noticed if no member fails.  If the member holds child nodes, it is of
another kind or fails because of the first of them that does not decode, and at any depth the error
is that of the node that is to blame, moved behind the branches to it.  The message reports the
same cause behind the texts of the branches and what the path in the node adds to them. -/
theorem decode_error_is_moved {members : List (String × Json)} {e : DecodeError}
    (failed : ofJson (.object members) = .error e) :
    ((∃ before m later, FailsFirst members before m later e ∧ e ≠ typeMissing ∧
        (∀ later', ofJson (.object (before ++ m :: later')) = .error e) ∧
        ∀ b : Branch, m.1 = b.slot.key → m.1 ∉ before.map Prod.fst →
          (∃ b' c, b'.slot = b.slot ∧ (Json.object members).FailsThrough b' c) ∨
            ∃ expected, e = (DecodeError.unexpected m.2 expected).under (.key m.1)) ∨
      (NoneFails members ∧ e = typeMissing ∧
        e.message = "at JSON path . → missing field `type`")) ∧
    ∀ bs w, Walk Json.FailsThrough (.object members) bs w →
      ∃ e', ofJson w = .error e' ∧
        e.path = (Location.root.along bs).steps.map DecodeError.PathStep.ofStep ++ e'.path ∧
        e.cause = e'.cause ∧
        e'.message = "at JSON path " ++ DecodeError.pathText e'.path ++ " → " ++ e'.cause.text ∧
        (bs ≠ [] →
          e.message = "at JSON path " ++ ".".intercalate (bs.map Branch.pathText) ++
            DecodeError.continued e'.path ++ " → " ++ e'.cause.text) := by
  constructor
  · rcases ofJson_eq_error.1 failed with ⟨before, m, later, first⟩ | ⟨none, -, missing⟩
    · refine .inl ⟨before, m, later, first, ?_, ?_, ?_⟩
      · rintro rfl
        exact memberError?_ne_typeMissing before m first.error
      · intro later'
        exact ofJson_eq_error.2 (.inl ⟨before, m, later', rfl, first.earlier, first.error⟩)
      · intro b key fresh
        obtain ⟨key', u⟩ := m
        obtain rfl : key' = b.slot.key := key
        have own := first.error
        rw [Branch.memberError?_eq fresh] at own
        obtain ⟨e', read, rfl⟩ := Option.map_eq_some_iff.1 own
        rcases Branch.exists_firstFails (error?_eq_some.1 read) with ⟨b', c, same, child⟩ | wrong
        · left
          refine ⟨b', c, same, before, u, later, ?_, first.earlier, ?_, child⟩
          · rw [same]
            exact first.split
          · rw [same]
            exact fresh
        · right
          obtain ⟨expected, rfl⟩ := wrong
          exact ⟨expected, rfl⟩
    · exact .inr ⟨none, missing, missing ▸ rfl⟩
  · intro bs w walk
    obtain ⟨e', failed', rfl⟩ := Json.FailsThrough.ofJson_eq_of_walk walk failed
    refine ⟨e', failed', by simp [DecodeError.behind, Location.along, Location.root], rfl, rfl, ?_⟩
    intro nonempty
    cases bs with
    | nil => exact absurd rfl nonempty
    | cons b bs => exact DecodeError.message_behind b bs e'

/-- A cell with a number for a title. -/
def Json.misnamedCell : Json := .object [("title", .number (.int 3)), ("type", .string "string")]

/-- The second property of the object holds such a cell, and its type is none either. -/
theorem grid_error_is_moved :
    let row : Json := .object
      [("prefixItems", .array [.object [("type", .string "integer")], .misnamedCell])]
    let rows : Json := .object [("items", row)]
    let members : List (String × Json) := [("note", .null),
      ("properties", .object [("name", .object [("type", .string "string")]), ("rows", rows)]),
      ("type", .bool true)]
    ∃ e, Schema.ofJson (.object members) = .error e ∧ e ≠ Schema.typeMissing ∧
      e.path = [.key "properties", .key "rows", .key "items", .key "prefixItems", .index 1,
        .key "title"] ∧
      e.cause.text = "invalid type: integer `3`, expected a string" ∧
      e.message = "at JSON path properties.rows.items.prefixItems[1].title → " ++
        "invalid type: integer `3`, expected a string" := by
  intro row rows members
  have cell : ¬ ∃ s, Schema.ofJson .misnamedCell = .ok s := nofun
  have inRow : row.FailsThrough (.prefixItem 1) .misnamedCell := by
    refine ⟨[], _, [], rfl, Schema.noneFails_iff.2 ⟨{}, rfl⟩, List.not_mem_nil, ?_⟩
    exact ⟨[_], [], rfl, rfl, List.forall_mem_singleton.2 ⟨_, rfl⟩, cell⟩
  have inRows : rows.FailsThrough .items row :=
    ⟨[], _, [], rfl, Schema.noneFails_iff.2 ⟨{}, rfl⟩, List.not_mem_nil, rfl, nofun, nofun⟩
  have inGrid : (Json.object members).FailsThrough (.property "rows") rows := by
    refine ⟨[("note", .null)], _, [_], rfl, Schema.noneFails_iff.2 ⟨{}, rfl⟩, by decide, ?_⟩
    exact ⟨[_], [], rfl, List.forall_mem_singleton.2 ⟨_, rfl⟩, nofun⟩
  obtain ⟨e, failed⟩ : ∃ e, Schema.ofJson (.object members) = .error e := ⟨_, rfl⟩
  obtain ⟨-, moved⟩ := decode_error_is_moved failed
  obtain ⟨e', own, path, cause, -, message⟩ :=
    moved _ _ (.down inGrid (.down inRows (.down inRow (.here _))))
  cases own
  refine ⟨e, failed, ?_, path, ?_, (message (List.cons_ne_nil _ _)).trans (by decide)⟩
  · rintro rfl
    cases path
  · rw [cause]
    rfl

end SchemaModel
