import SchemaModel.Json.Skip
import SchemaModel.Proofs.Documents

/-!
# The tokens of a value

A value has its tokens, brackets and separators included, and every member of an object where it
stands.  Whatever the reader accepts are the tokens of one value; what it returns is that value with
repeated keys merged, which is the value itself if no object repeats a key.  The machine that passes
over a value passes over exactly its tokens.

* `tokenForm` — the tokens of a value; `tokenForm_injective` — no other value has the same;
* `merged` — the value with repeated keys merged; `merged_eq` — there is nothing to merge if no
  object repeats a key;
* `Reader.Closes`, `Reader.Spells` — which tokens take the reader to a value, from what it expects;
* `Reader.spells_of_run` — the reader accepts no others;
* `exists_tokenForm_of_readValue` — what is read is spelled by its tokens;
* `readValue_tokenForm` — and its tokens are read as the value;
* `skipValue_tokenForm` — what is passed over.
-/

namespace SchemaModel.Json

mutual

/-- The tokens of a value, with every member where it stands. -/
def tokenForm : Json → List Token
  | .null => [.null]
  | .bool b => [.bool b]
  | .number n => [.number (some n)]
  | .string s => [.string (.ok s)]
  | .array items => .openArray :: itemTokens [] items
  | .object members => .openObject :: memberTokens [] members
termination_by structural v => v

/-- The tokens of the elements of an array up to the closing bracket, given what stands before the
first one; before each other stands a comma. -/
def itemTokens (separator : List Token) : List Json → List Token
  | [] => [.closeArray]
  | v :: rest => separator ++ (v.tokenForm ++ itemTokens [.comma] rest)
termination_by structural vs => vs

/-- The tokens of the members of an object up to the closing bracket, given what stands before the
first one; before each other stands a comma. -/
def memberTokens (separator : List Token) : List (String × Json) → List Token
  | [] => [.closeObject]
  | (key, v) :: rest =>
    separator ++ (.string (.ok key) :: .colon :: (v.tokenForm ++ memberTokens [.comma] rest))
termination_by structural ms => ms

end

theorem itemTokens_cons (separator : List Token) (v : Json) (items : List Json)
    (rest : List Token) :
    itemTokens separator (v :: items) ++ rest =
      separator ++ (v.tokenForm ++ (itemTokens [.comma] items ++ rest)) := by
  rw [itemTokens, List.append_assoc, List.append_assoc]

theorem memberTokens_cons (separator : List Token) (key : String) (v : Json)
    (members : List (String × Json)) (rest : List Token) :
    memberTokens separator ((key, v) :: members) ++ rest =
      separator ++ (.string (.ok key) :: .colon ::
        (v.tokenForm ++ (memberTokens [.comma] members ++ rest))) := by
  simp [memberTokens]

/-! ### One value for the tokens -/

section Parts

variable {α : Type} {close : Token} {spell : α → List Token}

/-- The tokens of the parts of a list up to the closing bracket. -/
def partTokens (close : Token) (spell : α → List Token) (separator : List Token) :
    List α → List Token
  | [] => [close]
  | x :: rest => separator ++ (spell x ++ partTokens close spell [.comma] rest)

theorem partTokens_cons (separator : List Token) (x : α) (xs : List α) (rest : List Token) :
    partTokens close spell separator (x :: xs) ++ rest =
      separator ++ (spell x ++ (partTokens close spell [.comma] xs ++ rest)) := by
  rw [partTokens, List.append_assoc, List.append_assoc]

theorem itemTokens_eq (separator : List Token) (items : List Json) :
    itemTokens separator items = partTokens .closeArray tokenForm separator items := by
  induction items generalizing separator with
  | nil => rfl
  | cons v items ih => rw [itemTokens, partTokens, ih]

theorem memberTokens_eq (separator : List Token) (members : List (String × Json)) :
    memberTokens separator members =
      partTokens .closeObject (fun m => .string (.ok m.1) :: .colon :: m.2.tokenForm) separator
        members := by
  induction members generalizing separator with
  | nil => rfl
  | cons m members ih => rw [memberTokens, partTokens, ih, List.cons_append, List.cons_append]

/-- The tokens of a part are told from those of others, and from what follows them. -/
def IsDelimited (spell : α → List Token) (x : α) : Prop :=
  ∀ y rest rest', spell x ++ rest = spell y ++ rest' → x = y ∧ rest = rest'

/-- Delimited parts are told from one another, also from no parts at all, if the closing bracket is
no comma and does not stand where the first part would begin. -/
theorem eq_of_partTokens {xs ys : List α} {separator rest rest' : List Token}
    (each : ∀ x ∈ xs, IsDelimited spell x) (comma : close ≠ .comma)
    (apart : ∀ x ts ts', separator ++ (spell x ++ ts) ≠ close :: ts')
    (same : partTokens close spell separator xs ++ rest =
      partTokens close spell separator ys ++ rest') : xs = ys ∧ rest = rest' := by
  induction xs generalizing separator ys with
  | nil =>
    cases ys with
    | nil => exact ⟨rfl, (List.cons.inj same).2⟩
    | cons y ys =>
      rw [partTokens_cons] at same
      exact absurd same.symm (apart _ _ _)
  | cons x xs ih =>
    cases ys with
    | nil =>
      rw [partTokens_cons] at same
      exact absurd same (apart _ _ _)
    | cons y ys =>
      rw [partTokens_cons, partTokens_cons] at same
      obtain ⟨first, others⟩ := List.forall_mem_cons.1 each
      obtain ⟨rfl, later⟩ := first y _ _ (List.append_cancel_left same)
      have further : ∀ x ts ts', [.comma] ++ (spell x ++ ts) ≠ close :: ts' := by
        intro x ts ts' equal
        exact comma (List.cons.inj equal).1.symm
      obtain ⟨rfl, rests⟩ := ih others further later
      exact ⟨rfl, rests⟩

end Parts

theorem isDelimited (v : Json) : IsDelimited tokenForm v := by
  induction v using Json.induction with
  | step v ih =>
    have parts : ∀ u, v.Part u → IsDelimited tokenForm u :=
      fun u part => ih 0 u (.deeper part (.here u))
    intro w rest rest' same
    cases v with
    | array items =>
      cases w with
      | array items' =>
        have begun : ∀ (w : Json) ts ts', [] ++ (w.tokenForm ++ ts) ≠ .closeArray :: ts' := by
          intro w ts ts' equal
          cases w <;> cases equal
        have comma : Token.closeArray ≠ .comma := nofun
        have inner : itemTokens [] items ++ rest = itemTokens [] items' ++ rest' :=
          (List.cons.inj same).2
        rw [itemTokens_eq, itemTokens_eq] at inner
        obtain ⟨rfl, rests⟩ := eq_of_partTokens parts comma begun inner
        exact ⟨rfl, rests⟩
      | _ => cases (List.cons.inj same).1
    | object members =>
      cases w with
      | object members' =>
        have each : ∀ m ∈ members, IsDelimited
            (fun m => .string (.ok m.1) :: .colon :: m.2.tokenForm) m := by
          rintro ⟨key, v⟩ mem ⟨key', v'⟩ ts ts' equal
          obtain ⟨keys, values⟩ := List.cons.inj equal
          cases keys
          obtain ⟨rfl, rests⟩ := parts v ⟨key, mem⟩ v' ts ts' (List.cons.inj values).2
          exact ⟨rfl, rests⟩
        have comma : Token.closeObject ≠ .comma := nofun
        have inner : memberTokens [] members ++ rest = memberTokens [] members' ++ rest' :=
          (List.cons.inj same).2
        rw [memberTokens_eq, memberTokens_eq] at inner
        obtain ⟨rfl, rests⟩ := eq_of_partTokens each comma
          (fun _ _ _ equal => by cases (List.cons.inj equal).1) inner
        exact ⟨rfl, rests⟩
      | _ => cases (List.cons.inj same).1
    | _ =>
      cases w <;> cases (List.cons.inj same).1
      exact ⟨rfl, (List.cons.inj same).2⟩

/-- **Tokens spell at most one value.** -/
theorem tokenForm_injective {v w : Json} (same : v.tokenForm = w.tokenForm) : v = w :=
  (isDelimited v w [] [] (congrArg (· ++ []) same)).1

/-! ### Repeated keys -/

mutual

/-- The value in which every repeated key keeps its first place and its last value. -/
def merged : Json → Json
  | .array items => .array (mergedItems items)
  | .object members => .object (Table.ofEntries (mergedMembers members))
  | v => v
termination_by structural v => v

/-- The elements of an array, with repeated keys merged inside them. -/
def mergedItems : List Json → List Json
  | [] => []
  | v :: rest => v.merged :: mergedItems rest
termination_by structural vs => vs

/-- The members of an object, with repeated keys merged inside their values. -/
def mergedMembers : List (String × Json) → List (String × Json)
  | [] => []
  | (key, v) :: rest => (key, v.merged) :: mergedMembers rest
termination_by structural ms => ms

end

theorem mergedItems_eq {items : List Json} (each : ∀ v ∈ items, v.merged = v) :
    mergedItems items = items := by
  induction items with
  | nil => rfl
  | cons v rest ih =>
    obtain ⟨first, others⟩ := List.forall_mem_cons.1 each
    rw [mergedItems, first, ih others]

theorem mergedMembers_eq {members : List (String × Json)} (each : ∀ m ∈ members, m.2.merged = m.2) :
    mergedMembers members = members := by
  induction members with
  | nil => rfl
  | cons m rest ih =>
    obtain ⟨first, others⟩ := List.forall_mem_cons.1 each
    rw [mergedMembers, first, ih others]

/-- **A value in which no object repeats a key stays as it is.** -/
theorem merged_eq {v : Json} (distinct : v.HasDistinctKeys) : v.merged = v := by
  induction v using Json.induction with
  | step v ih =>
    have parts : ∀ u, v.Part u → u.merged = u := fun u part =>
      have inside : v.Inside 1 u := .deeper part (.here u)
      ih 0 u inside (distinct.inside inside)
    cases v with
    | array items => rw [merged, mergedItems_eq parts]
    | object members =>
      have members_eq : mergedMembers members = members :=
        mergedMembers_eq fun m mem => parts m.2 ⟨m.1, mem⟩
      rw [merged, members_eq, Table.ofEntries_of_nodup distinct.1]
    | _ => rfl

/-! ### What the reader accepts -/

namespace Reader

/-- Goes on after a token. -/
def resume (limit : Option Nat) (ts : List Token) : Step → Except SyntaxError (Json × List Token)
  | .done v => .ok (v, ts)
  | .more expecting stack => run limit expecting stack ts

theorem run_cons (limit : Option Nat) (expecting : Expecting) (stack : List Frame) (t : Token)
    (ts : List Token) :
    run limit expecting stack (t :: ts) = step limit expecting stack t >>= resume limit ts := by
  rw [run]
  cases step limit expecting stack t with
  | error e => rfl
  | ok s => cases s <;> rfl

/-- Tokens close all open arrays and objects around a value, which becomes part of another one, and
leave a rest. -/
def Closes : List Frame → Json → List Token → Json → List Token → Prop
  | [], x, ts, v, rest => x = v ∧ ts = rest
  | .list done :: stack, x, ts, v, rest =>
    ∃ items after, ts = itemTokens [.comma] items ++ after ∧
      Closes stack (.array (done.reverse ++ x :: mergedItems items)) after v rest
  | .object done key :: stack, x, ts, v, rest =>
    ∃ members after, ts = memberTokens [.comma] members ++ after ∧
      Closes stack (.object (Table.ofEntries (done.reverse ++ (key, x) :: mergedMembers members)))
        after v rest

/-- The tokens that take the reader to a value from what it expects. -/
def Spells : Expecting → List Frame → List Token → Json → List Token → Prop
  | .value, stack, ts, v, rest | .nextElement, stack, ts, v, rest =>
    ∃ (u : Json) (after : List Token), ts = u.tokenForm ++ after ∧ Closes stack u.merged after v rest
  | .firstElement, .list done :: stack, ts, v, rest =>
    ∃ items after, ts = itemTokens [] items ++ after ∧
      Closes stack (.array (done.reverse ++ mergedItems items)) after v rest
  | .elementEnd, .list done :: stack, ts, v, rest =>
    ∃ items after, ts = itemTokens [.comma] items ++ after ∧
      Closes stack (.array (done.reverse ++ mergedItems items)) after v rest
  | .firstKey, .object done _ :: stack, ts, v, rest =>
    ∃ members after, ts = memberTokens [] members ++ after ∧
      Closes stack (.object (Table.ofEntries (done.reverse ++ mergedMembers members))) after v rest
  | .nextKey, .object done _ :: stack, ts, v, rest =>
    ∃ (key : String) (u : Json) (members : List (String × Json)) (after : List Token),
      ts = .string (.ok key) :: .colon :: (u.tokenForm ++ (memberTokens [.comma] members ++ after)) ∧
      Closes stack
        (.object (Table.ofEntries (done.reverse ++ (key, u.merged) :: mergedMembers members))) after
        v rest
  | .colon, .object done key :: stack, ts, v, rest =>
    ∃ (u : Json) (members : List (String × Json)) (after : List Token),
      ts = .colon :: (u.tokenForm ++ (memberTokens [.comma] members ++ after)) ∧
      Closes stack
        (.object (Table.ofEntries (done.reverse ++ (key, u.merged) :: mergedMembers members))) after
        v rest
  | .memberEnd, .object done _ :: stack, ts, v, rest =>
    ∃ members after, ts = memberTokens [.comma] members ++ after ∧
      Closes stack (.object (Table.ofEntries (done.reverse ++ mergedMembers members))) after v rest
  | _, _, _, _, _ => False

/-- Between the elements of an array the innermost open bracket is that of an array, and between the
members of an object that of an object. -/
inductive Fits : Expecting → List Frame → Prop
  | value (stack : List Frame) : Fits .value stack
  | nextElement (stack : List Frame) : Fits .nextElement stack
  | firstElement (done : List Json) (stack : List Frame) : Fits .firstElement (.list done :: stack)
  | elementEnd (done : List Json) (stack : List Frame) : Fits .elementEnd (.list done :: stack)
  | firstKey (done : List (String × Json)) (key : String) (stack : List Frame) :
      Fits .firstKey (.object done key :: stack)
  | nextKey (done : List (String × Json)) (key : String) (stack : List Frame) :
      Fits .nextKey (.object done key :: stack)
  | colon (done : List (String × Json)) (key : String) (stack : List Frame) :
      Fits .colon (.object done key :: stack)
  | memberEnd (done : List (String × Json)) (key : String) (stack : List Frame) :
      Fits .memberEnd (.object done key :: stack)

section Run

variable {limit : Option Nat} {ts : List Token} {v : Json} {rest : List Token}
  (later : ∀ {expecting stack}, Fits expecting stack →
    run limit expecting stack ts = .ok (v, rest) → Spells expecting stack ts v rest)

include later

/-- What follows a complete value closes what is open around it. -/
theorem closes_of_complete {x : Json} {stack : List Frame}
    (h : resume limit ts (complete x stack) = .ok (v, rest)) : Closes stack x ts v rest := by
  cases stack with
  | nil =>
    cases h
    exact ⟨rfl, rfl⟩
  | cons frame stack =>
    cases frame with
    | list done =>
      obtain ⟨items, after, rfl, closes⟩ := later (.elementEnd (x :: done) stack) h
      rw [List.reverse_cons, List.append_assoc] at closes
      exact ⟨items, after, rfl, closes⟩
    | object done key =>
      obtain ⟨members, after, rfl, closes⟩ :=
        later (.memberEnd ((key, x) :: done) key stack) h
      rw [List.reverse_cons, List.append_assoc] at closes
      exact ⟨members, after, rfl, closes⟩

theorem spells_of_valueStep {t : Token} {stack : List Frame}
    (h : valueStep limit stack t >>= resume limit ts = .ok (v, rest)) :
    Spells .value stack (t :: ts) v rest := by
  have opened : ∀ {frame e}, open_ limit frame e stack >>= resume limit ts = .ok (v, rest) →
      run limit e (frame :: stack) ts = .ok (v, rest) := by
    intro frame e h
    rw [open_] at h
    split at h
    · cases h
    · exact h
  cases t with
  | openArray =>
    obtain ⟨items, after, rfl, closes⟩ := later (.firstElement [] stack) (opened h)
    exact ⟨.array items, after, rfl, closes⟩
  | openObject =>
    obtain ⟨members, after, rfl, closes⟩ := later (.firstKey [] "" stack) (opened h)
    exact ⟨.object members, after, rfl, closes⟩
  | null => exact ⟨.null, ts, rfl, closes_of_complete later h⟩
  | bool b => exact ⟨.bool b, ts, rfl, closes_of_complete later h⟩
  | number n =>
    cases n with
    | some n => exact ⟨.number n, ts, rfl, closes_of_complete later h⟩
    | none => cases h
  | string content =>
    cases content with
    | ok s => exact ⟨.string s, ts, rfl, closes_of_complete later h⟩
    | error e => cases h
  | _ => cases h

theorem spells_of_keyStep {t : Token} {done : List (String × Json)} {key : String}
    {stack : List Frame}
    (h : keyStep (.object done key :: stack) t >>= resume limit ts = .ok (v, rest)) :
    Spells .nextKey (.object done key :: stack) (t :: ts) v rest := by
  cases t with
  | string content =>
    cases content with
    | ok name =>
      obtain ⟨u, members, after, rfl, closes⟩ := later (.colon done name stack) h
      exact ⟨name, u, members, after, rfl, closes⟩
    | error e => cases h
  | _ => cases h

end Run

/-- **The reader accepts no other tokens** than those that spell a value from what it expects. -/
theorem spells_of_run {limit : Option Nat} {expecting : Expecting} {stack : List Frame}
    {ts : List Token} {v : Json} {rest : List Token} (fits : Fits expecting stack)
    (h : run limit expecting stack ts = .ok (v, rest)) : Spells expecting stack ts v rest := by
  induction ts generalizing expecting stack with
  | nil => cases h
  | cons t ts ih =>
    have later : ∀ {expecting stack}, Fits expecting stack →
        run limit expecting stack ts = .ok (v, rest) → Spells expecting stack ts v rest := ih
    rw [run_cons] at h
    cases fits with
    | value => exact spells_of_valueStep later h
    | nextElement =>
      have value : valueStep limit stack t >>= resume limit ts = .ok (v, rest) := by
        cases t <;> first | exact h | cases h
      exact spells_of_valueStep later value
    | firstElement done stack =>
      by_cases closing : t = .closeArray
      · subst closing
        have closes := closes_of_complete later h
        exact ⟨[], ts, rfl, by simpa [mergedItems] using closes⟩
      · have value : valueStep limit (.list done :: stack) t >>= resume limit ts =
            .ok (v, rest) := by
          cases t <;> first | exact h | exact absurd rfl closing
        obtain ⟨u, _, split, items, after, rfl, closes⟩ := spells_of_valueStep later value
        refine ⟨u :: items, after, ?_, closes⟩
        rw [split, itemTokens_cons]
        rfl
    | elementEnd done stack =>
      cases t with
      | closeArray =>
        have closes := closes_of_complete later h
        exact ⟨[], ts, rfl, by simpa [mergedItems] using closes⟩
      | comma =>
        obtain ⟨u, _, rfl, items, after, rfl, closes⟩ := later (.nextElement _) h
        refine ⟨u :: items, after, ?_, closes⟩
        rw [itemTokens_cons]
        rfl
      | _ => cases h
    | firstKey done key stack =>
      by_cases closing : t = .closeObject
      · subst closing
        have closes := closes_of_complete later h
        exact ⟨[], ts, rfl, by simpa [mergedMembers] using closes⟩
      · have member : keyStep (.object done key :: stack) t >>= resume limit ts =
            .ok (v, rest) := by
          cases t <;> first | exact h | exact absurd rfl closing
        obtain ⟨name, u, members, after, split, closes⟩ := spells_of_keyStep later member
        refine ⟨(name, u) :: members, after, ?_, closes⟩
        rw [split, memberTokens_cons]
        rfl
    | nextKey done key stack =>
      have member : keyStep (.object done key :: stack) t >>= resume limit ts = .ok (v, rest) := by
        cases t <;> first | exact h | cases h
      exact spells_of_keyStep later member
    | colon done key stack =>
      cases t with
      | colon =>
        obtain ⟨u, _, rfl, members, after, rfl, closes⟩ := later (.value _) h
        exact ⟨u, members, after, rfl, closes⟩
      | _ => cases h
    | memberEnd done key stack =>
      cases t with
      | closeObject =>
        have closes := closes_of_complete later h
        exact ⟨[], ts, rfl, by simpa [mergedMembers] using closes⟩
      | comma =>
        obtain ⟨name, u, members, after, rfl, closes⟩ := later (.nextKey done key stack) h
        refine ⟨(name, u) :: members, after, ?_, closes⟩
        rw [memberTokens_cons]
        rfl
      | _ => cases h

end Reader

/-- **What is read is spelled by its tokens**, with repeated keys merged. -/
theorem exists_tokenForm_of_readValue {limit : Option Nat} {ts rest : List Token} {v : Json}
    (h : readValue limit ts = .ok (v, rest)) : ∃ u : Json, ts = u.tokenForm ++ rest ∧ u.merged = v := by
  obtain ⟨u, after, rfl, closes⟩ := Reader.spells_of_run (.value []) h
  obtain ⟨rfl, rfl⟩ := closes
  exact ⟨u, rfl, rfl⟩

theorem exists_tokenForm_of_parse {limit : Option Nat} {text : String} {v : Json}
    (h : parse limit text = .ok v) :
    ∃ u : Json, tokens text.toList = u.tokenForm ∧ u.merged = v := by
  unfold parse at h
  split at h
  · cases h
  · rename_i read
    cases h
    obtain ⟨u, spelled, merged⟩ := exists_tokenForm_of_readValue read
    exact ⟨u, spelled.trans (List.append_nil _), merged⟩
  · cases h

/-! ### What the reader takes in -/

namespace Reader

/-- Without a limit, the reader takes in the tokens of a value, whatever is open around it. -/
def TakesIn (v : Json) : Prop :=
  ∀ stack rest,
    run none .value stack (v.tokenForm ++ rest) = resume none rest (complete v.merged stack)

/-- The first token of a value closes nothing. -/
theorem run_element {expecting : Expecting}
    (element : expecting = .firstElement ∨ expecting = .nextElement) (v : Json)
    (stack : List Frame) (rest : List Token) :
    run none expecting stack (v.tokenForm ++ rest) = run none .value stack (v.tokenForm ++ rest) := by
  rcases element with rfl | rfl <;> cases v <;> rfl

theorem run_moreItems {items : List Json} (each : ∀ v ∈ items, TakesIn v) (done : List Json)
    (stack : List Frame) (rest : List Token) :
    run none .elementEnd (.list done :: stack) (itemTokens [.comma] items ++ rest) =
      resume none rest (complete (.array (done.reverse ++ mergedItems items)) stack) := by
  induction items generalizing done with
  | nil =>
    rw [mergedItems, List.append_nil]
    exact run_cons _ _ _ _ _
  | cons v items ih =>
    obtain ⟨first, others⟩ := List.forall_mem_cons.1 each
    rw [itemTokens_cons]
    show run none .nextElement (.list done :: stack)
      (v.tokenForm ++ (itemTokens [.comma] items ++ rest)) = _
    rw [run_element (.inr rfl), first]
    show run none .elementEnd (.list (v.merged :: done) :: stack) _ = _
    rw [ih others, mergedItems, List.reverse_cons, List.append_assoc]
    rfl

theorem run_items {items : List Json} (each : ∀ v ∈ items, TakesIn v) (stack : List Frame)
    (rest : List Token) :
    run none .firstElement (.list [] :: stack) (itemTokens [] items ++ rest) =
      resume none rest (complete (.array (mergedItems items)) stack) := by
  cases items with
  | nil => exact run_cons _ _ _ _ _
  | cons v items =>
    obtain ⟨first, others⟩ := List.forall_mem_cons.1 each
    rw [itemTokens_cons, List.nil_append, run_element (.inl rfl), first]
    exact run_moreItems others [v.merged] stack rest

theorem run_member {expecting : Expecting}
    (member : expecting = .firstKey ∨ expecting = .nextKey) {key : String} {v : Json}
    (takesIn : TakesIn v) (done : List (String × Json)) (last : String) (stack : List Frame)
    (rest : List Token) :
    run none expecting (.object done last :: stack)
        (.string (.ok key) :: .colon :: (v.tokenForm ++ rest)) =
      run none .memberEnd (.object ((key, v.merged) :: done) key :: stack) rest := by
  have inside : run none .value (.object done key :: stack) (v.tokenForm ++ rest) =
      run none .memberEnd (.object ((key, v.merged) :: done) key :: stack) rest := takesIn _ _
  rw [← inside]
  rcases member with rfl | rfl <;> rfl

theorem run_moreMembers {members : List (String × Json)} (each : ∀ m ∈ members, TakesIn m.2)
    (done : List (String × Json)) (last : String) (stack : List Frame) (rest : List Token) :
    run none .memberEnd (.object done last :: stack) (memberTokens [.comma] members ++ rest) =
      resume none rest
        (complete (.object (Table.ofEntries (done.reverse ++ mergedMembers members))) stack) := by
  induction members generalizing done last with
  | nil =>
    rw [mergedMembers, List.append_nil]
    exact run_cons _ _ _ _ _
  | cons m members ih =>
    obtain ⟨key, v⟩ := m
    obtain ⟨first, others⟩ := List.forall_mem_cons.1 each
    rw [memberTokens_cons]
    show run none .nextKey (.object done last :: stack)
      (.string (.ok key) :: .colon :: (v.tokenForm ++ (memberTokens [.comma] members ++ rest))) = _
    rw [run_member (.inr rfl) first, ih others, mergedMembers, List.reverse_cons,
      List.append_assoc]
    rfl

theorem run_members {members : List (String × Json)} (each : ∀ m ∈ members, TakesIn m.2)
    (stack : List Frame) (rest : List Token) :
    run none .firstKey (.object [] "" :: stack) (memberTokens [] members ++ rest) =
      resume none rest (complete (.object (Table.ofEntries (mergedMembers members))) stack) := by
  cases members with
  | nil => exact run_cons _ _ _ _ _
  | cons m members =>
    obtain ⟨key, v⟩ := m
    obtain ⟨first, others⟩ := List.forall_mem_cons.1 each
    rw [memberTokens_cons, List.nil_append, run_member (.inl rfl) first]
    exact run_moreMembers others [(key, v.merged)] key stack rest

theorem takesIn (v : Json) : TakesIn v := by
  induction v using Json.induction with
  | step v ih =>
    have parts : ∀ u, v.Part u → TakesIn u := fun u part => ih 0 u (.deeper part (.here u))
    intro stack rest
    cases v with
    | array items => exact run_items parts stack rest
    | object members => exact run_members (fun m mem => parts m.2 ⟨m.1, mem⟩) stack rest
    | _ => exact run_cons _ _ _ _ _

end Reader

/-- **The tokens of a value are read as the value**, with repeated keys merged. -/
theorem readValue_tokenForm (v : Json) (rest : List Token) :
    readValue none (v.tokenForm ++ rest) = .ok (v.merged, rest) := Reader.takesIn v [] rest

theorem parse_of_tokens {text : String} {v : Json} (spelled : tokens text.toList = v.tokenForm) :
    parse none text = .ok v.merged := by
  have read := readValue_tokenForm v []
  rw [List.append_nil, ← spelled] at read
  rw [parse, read]

/-! ### What is passed over -/

namespace Skip

/-- Goes on after a token. -/
def resume (ts : List Token) : Step → Except SyntaxError (List Token)
  | .done => .ok ts
  | .more expecting stack => run expecting stack ts

theorem run_cons (expecting : Expecting) (stack : List Bracket) (t : Token) (ts : List Token) :
    run expecting stack (t :: ts) = step expecting stack t >>= resume ts := by
  rw [run]
  cases step expecting stack t with
  | error e => rfl
  | ok s => cases s <;> rfl

/-- The machine passes over the tokens of a value, whatever is open around it. -/
def PassesOver (v : Json) : Prop :=
  ∀ stack rest, run .value stack (v.tokenForm ++ rest) = resume rest (complete stack)

theorem run_first (v : Json) (stack : List Bracket) (rest : List Token) :
    run (.first .list) stack (v.tokenForm ++ rest) = run .value stack (v.tokenForm ++ rest) := by
  cases v <;> rfl

theorem run_moreItems {items : List Json} (each : ∀ v ∈ items, PassesOver v)
    (stack : List Bracket) (rest : List Token) :
    run (.more .list) (.list :: stack) (itemTokens [.comma] items ++ rest) =
      resume rest (complete stack) := by
  induction items with
  | nil => exact run_cons _ _ _ _
  | cons v items ih =>
    obtain ⟨first, others⟩ := List.forall_mem_cons.1 each
    rw [itemTokens_cons]
    show run .value (.list :: stack) (v.tokenForm ++ (itemTokens [.comma] items ++ rest)) = _
    rw [first]
    exact ih others

theorem run_items {items : List Json} (each : ∀ v ∈ items, PassesOver v)
    (stack : List Bracket) (rest : List Token) :
    run (.first .list) (.list :: stack) (itemTokens [] items ++ rest) =
      resume rest (complete stack) := by
  cases items with
  | nil => exact run_cons _ _ _ _
  | cons v items =>
    obtain ⟨first, others⟩ := List.forall_mem_cons.1 each
    rw [itemTokens_cons, List.nil_append, run_first, first]
    exact run_moreItems others stack rest

theorem run_moreMembers {members : List (String × Json)} (each : ∀ m ∈ members, PassesOver m.2)
    (stack : List Bracket) (rest : List Token) :
    run (.more .object) (.object :: stack) (memberTokens [.comma] members ++ rest) =
      resume rest (complete stack) := by
  induction members with
  | nil => exact run_cons _ _ _ _
  | cons m members ih =>
    obtain ⟨first, others⟩ := List.forall_mem_cons.1 each
    rw [memberTokens_cons]
    show run .value (.object :: stack) (m.2.tokenForm ++ (memberTokens [.comma] members ++ rest)) = _
    rw [first]
    exact ih others

theorem run_members {members : List (String × Json)} (each : ∀ m ∈ members, PassesOver m.2)
    (stack : List Bracket) (rest : List Token) :
    run (.first .object) (.object :: stack) (memberTokens [] members ++ rest) =
      resume rest (complete stack) := by
  cases members with
  | nil => exact run_cons _ _ _ _
  | cons m members =>
    obtain ⟨first, others⟩ := List.forall_mem_cons.1 each
    rw [memberTokens_cons]
    show run .value (.object :: stack) (m.2.tokenForm ++ (memberTokens [.comma] members ++ rest)) = _
    rw [first]
    exact run_moreMembers others stack rest

theorem passesOver (v : Json) : PassesOver v := by
  induction v using Json.induction with
  | step v ih =>
    have parts : ∀ u, v.Part u → PassesOver u := fun u part => ih 0 u (.deeper part (.here u))
    intro stack rest
    cases v with
    | array items => exact run_items parts stack rest
    | object members => exact run_members (fun m mem => parts m.2 ⟨m.1, mem⟩) stack rest
    | _ => exact run_cons _ _ _ _

end Skip

/-- **Passing over a value passes over its tokens.** -/
theorem skipValue_tokenForm (v : Json) (rest : List Token) :
    skipValue (v.tokenForm ++ rest) = .ok rest := Skip.passesOver v [] rest

end SchemaModel.Json
