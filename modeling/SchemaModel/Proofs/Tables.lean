import SchemaModel.Proofs.Lists
import SchemaModel.Table

/-!
# Entries put one after the other

Entries that are put into a table one after the other leave, under every key, the place of its first
entry and the value of its last.

* `Table.get?_putAll` — the values;
* `Table.keys_putAll` — the keys and their order; `Table.keys_putAll_nodup` — none is repeated;
* `Table.mem_keys_ofEntries` — which keys there are;
* `Table.mem_of_mem_putAll` — no entry is made up;
* `Table.values_ofEntries` — what stays if entries are put under other keys.
-/

namespace SchemaModel.Table

variable {α : Type u}

/-! ### Keys -/

theorem eraseDups_of_nodup {β : Type u} [BEq β] [LawfulBEq β] {l : List β} (h : l.Nodup) :
    l.eraseDups = l := by
  induction l with
  | nil => rfl
  | cons x rest ih =>
    obtain ⟨fresh, nodup⟩ := List.nodup_cons.1 h
    have kept : rest.filter (fun y => !y == x) = rest := by
      refine List.filter_eq_self.2 fun y mem => ?_
      have ne : y ≠ x := fun same => fresh (same ▸ mem)
      simp [ne]
    rw [List.eraseDups_cons, kept, ih nodup]

/-- Keys stay in the order in which they were first put. -/
theorem keys_putAll {t : Table α} (h : t.keys.Nodup) (entries : List (String × α)) :
    (t.putAll entries).keys = (t.keys ++ entries.map Prod.fst).eraseDups := by
  induction entries generalizing t with
  | nil =>
    rw [List.map_nil, List.append_nil, eraseDups_of_nodup h]
    rfl
  | cons e rest ih =>
    show ((put e.1 e.2 t).putAll rest).keys = _
    by_cases known : e.1 ∈ t.keys
    · have same : keys (put e.1 e.2 t) = t.keys := by rw [keys_put, if_pos known]
      have dropped : (e.1 :: rest.map Prod.fst).removeAll t.keys =
          (rest.map Prod.fst).removeAll t.keys := by
        simp [List.removeAll, known]
      rw [ih (same ▸ h), same, List.map_cons, List.eraseDups_append, List.eraseDups_append, dropped]
    · have grown : keys (put e.1 e.2 t) = t.keys ++ [e.1] := by rw [keys_put, if_neg known]
      have nodup : (keys (put e.1 e.2 t)).Nodup := by
        rw [grown, ← List.concat_eq_append]
        exact h.concat known
      rw [ih nodup, grown, List.map_cons, List.append_assoc, List.singleton_append]

theorem keys_putAll_nodup {t : Table α} (h : t.keys.Nodup) (entries : List (String × α)) :
    (t.putAll entries).keys.Nodup := by
  induction entries generalizing t with
  | nil => exact h
  | cons e rest ih =>
    refine ih ?_
    rw [keys_put]
    split
    · exact h
    · rename_i fresh
      rw [← List.concat_eq_append]
      exact h.concat fresh

theorem put_of_notMem {t : Table α} {key : String} (fresh : key ∉ t.keys) (v : α) :
    put key v t = t ++ [(key, v)] := by
  induction t with
  | nil => rfl
  | cons e rest ih =>
    have first : e.1 ≠ key := fun same => fresh (same ▸ List.mem_cons_self)
    have others : key ∉ keys rest := fun mem => fresh (List.mem_cons_of_mem _ mem)
    rw [put, if_neg first, ih others, List.cons_append]

/-- Entries under new and different keys are put at the end, one after the other. -/
theorem putAll_of_nodup {t : Table α} {entries : List (String × α)}
    (nodup : (t.keys ++ entries.map Prod.fst).Nodup) : t.putAll entries = t ++ entries := by
  induction entries generalizing t with
  | nil => exact (List.append_nil t).symm
  | cons e rest ih =>
    have fresh : e.1 ∉ t.keys := fun mem => List.disjoint_of_nodup_append nodup mem (by simp)
    have grown : put e.1 e.2 t = t ++ [e] := put_of_notMem fresh e.2
    show (put e.1 e.2 t).putAll rest = _
    rw [ih, grown, List.append_assoc, List.singleton_append]
    rw [grown]
    simpa [keys] using nodup

/-- Entries under different keys are a table. -/
theorem ofEntries_of_nodup {entries : List (String × α)} (nodup : (entries.map Prod.fst).Nodup) :
    ofEntries entries = entries := putAll_of_nodup nodup

/-- The keys are those of the entries. -/
theorem mem_keys_ofEntries {entries : List (String × α)} {key : String} :
    key ∈ (ofEntries entries).keys ↔ key ∈ entries.map Prod.fst := by
  have empty : (keys ([] : Table α)).Nodup := List.nodup_nil
  rw [ofEntries, keys_putAll empty, List.mem_eraseDups]
  rfl

theorem ofEntries_eq_nil {entries : List (String × α)} : ofEntries entries = [] ↔ entries = [] := by
  constructor
  · intro none
    refine List.eq_nil_iff_forall_not_mem.2 fun e mem => ?_
    have known : e.1 ∈ (ofEntries entries).keys :=
      mem_keys_ofEntries.2 (List.mem_map_of_mem mem)
    rw [none] at known
    cases known
  · rintro rfl
    rfl

/-! ### Values -/

/-- The value under a key is that of its last entry, if it has one. -/
theorem get?_putAll (t : Table α) (entries : List (String × α)) (key : String) :
    (t.putAll entries).get? key = (entries.reverse.lookup key).or (t.get? key) := by
  induction entries generalizing t with
  | nil => rfl
  | cons e rest ih =>
    show ((put e.1 e.2 t).putAll rest).get? key = _
    rw [ih, get?_put, List.reverse_cons, List.lookup_append, Option.or_assoc]
    by_cases same : key = e.1
    · rw [if_pos same, List.lookup_cons, same, beq_self_eq_true]
      rfl
    · rw [if_neg same, List.lookup_cons, beq_false_of_ne same]
      rfl

theorem mem_of_mem_put {t : Table α} {key : String} {v : α} {e : String × α}
    (h : e ∈ put key v t) : e = (key, v) ∨ e ∈ t := by
  induction t with
  | nil => exact .inl (List.mem_singleton.1 h)
  | cons first rest ih =>
    rw [put] at h
    split at h
    · rcases List.mem_cons.1 h with rfl | mem
      · exact .inl rfl
      · exact .inr (List.mem_cons_of_mem _ mem)
    · rcases List.mem_cons.1 h with rfl | mem
      · exact .inr List.mem_cons_self
      · exact (ih mem).imp_right (List.mem_cons_of_mem _)

theorem mem_of_mem_putAll {t : Table α} {entries : List (String × α)} {e : String × α}
    (h : e ∈ t.putAll entries) : e ∈ t ∨ e ∈ entries := by
  induction entries generalizing t with
  | nil => exact .inl h
  | cons first rest ih =>
    rcases ih h with put | later
    · rcases mem_of_mem_put put with rfl | old
      · exact .inr List.mem_cons_self
      · exact .inl old
    · exact .inr (List.mem_cons_of_mem _ later)

/-! ### Entries under other keys -/

section Renamed

variable {β : Type} {K : String → String → Prop}

/-- Two entries have corresponding keys and the same value. -/
def Renamed (K : String → String → Prop) (e e' : String × β) : Prop := K e.1 e'.1 ∧ e.2 = e'.2

theorem put_renamed (apart : ∀ {a a' b b'}, K a a' → K b b' → (a = b ↔ a' = b')) {t t' : Table β}
    (h : List.Forall₂ (Renamed K) t t') {key key' : String} (keys : K key key') (v : β) :
    List.Forall₂ (Renamed K) (put key v t) (put key' v t') := by
  induction h with
  | nil => exact .cons ⟨keys, rfl⟩ .nil
  | @cons e e' _ _ related others ih =>
    rw [put, put]
    by_cases same : e.1 = key
    · rw [if_pos same, if_pos ((apart related.1 keys).1 same)]
      exact .cons ⟨keys, rfl⟩ others
    · rw [if_neg same, if_neg fun same' => same ((apart related.1 keys).2 same')]
      exact .cons related ih

theorem putAll_renamed (apart : ∀ {a a' b b'}, K a a' → K b b' → (a = b ↔ a' = b'))
    {es es' : List (String × β)} (h : List.Forall₂ (Renamed K) es es') {t t' : Table β}
    (start : List.Forall₂ (Renamed K) t t') :
    List.Forall₂ (Renamed K) (t.putAll es) (t'.putAll es') := by
  induction h generalizing t t' with
  | nil => exact start
  | @cons e e' _ _ related _ ih =>
    obtain ⟨key, v⟩ := e
    obtain ⟨key', v'⟩ := e'
    obtain ⟨keys, rfl⟩ : K key key' ∧ v = v' := related
    exact ih (put_renamed apart start keys v)

/-- Keys are repeated at the same places of both lists. -/
def RepeatAlike (es es' : List (String × β)) : Prop :=
  ∀ i j : Nat, (es.map Prod.fst)[i]? = (es.map Prod.fst)[j]? ↔
    (es'.map Prod.fst)[i]? = (es'.map Prod.fst)[j]?

/-- **Entries whose keys are replaced leave the same values in the same order**, if different keys
stay apart and equal keys stay equal. -/
theorem values_ofEntries {es es' : List (String × β)} (keys : RepeatAlike es es')
    (values : List.Forall₂ (fun e e' => e.2 = e'.2) es es') :
    (ofEntries es').map Prod.snd = (ofEntries es).map Prod.snd := by
  let K := fun a a' => ∃ i : Nat, (es.map Prod.fst)[i]? = some a ∧ (es'.map Prod.fst)[i]? = some a'
  have apart : ∀ {a a' b b'}, K a a' → K b b' → (a = b ↔ a' = b') := by
    rintro a a' b b' ⟨i, hi, hi'⟩ ⟨j, hj, hj'⟩
    have alike := keys i j
    rwa [hi, hj, hi', hj', Option.some_inj, Option.some_inj] at alike
  have renamed : List.Forall₂ (Renamed K) es es' := by
    refine forall₂_of_getElem? (fun i e he => ?_) fun i e' he' => ?_
    · obtain ⟨e', he', same⟩ := Forall₂.getElem?_left values he
      exact ⟨e', he', ⟨i, by simp [he], by simp [he']⟩, same⟩
    · obtain ⟨e, he, -⟩ := Forall₂.getElem?_right values he'
      exact ⟨e, he⟩
  exact Forall₂.map_eq (putAll_renamed apart renamed .nil) fun _ _ related => related.2.symm

end Renamed

end SchemaModel.Table
