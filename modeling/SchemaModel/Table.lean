/-!
# Tables that keep the order of first insertion

A table is a list of key–value entries.  Putting a key that is already there replaces its value
and keeps its place; a new key goes to the end.

* `Table.put` — insertion in place or at the end;
* `Table.ofEntries` — entries put one after the other;
* `Table.get?` — the value at a key;
* `Table.get?_put`, `Table.keys_put` — what a put changes.
-/

namespace SchemaModel

/-- Entries in the order in which their keys were first put. -/
abbrev Table (α : Type u) := List (String × α)

namespace Table

variable {α : Type u}

/-- Replaces the value at a key, or adds the entry at the end. -/
def put (key : String) (value : α) : Table α → Table α
  | [] => [(key, value)]
  | (k, v) :: rest => if k = key then (key, value) :: rest else (k, v) :: put key value rest

/-- Puts entries one after the other. -/
def putAll (table : Table α) (entries : List (String × α)) : Table α :=
  entries.foldl (fun t e => put e.1 e.2 t) table

/-- The table of entries put one after the other. -/
def ofEntries (entries : List (String × α)) : Table α := putAll [] entries

/-- The value at a key. -/
def get? (table : Table α) (key : String) : Option α := List.lookup key table

/-- The keys in the order of first insertion. -/
def keys (table : Table α) : List String := table.map (·.1)

theorem get?_cons (e : String × α) (rest : Table α) (k : String) :
    get? (e :: rest) k = if k = e.1 then some e.2 else get? rest k := by
  obtain ⟨key, v⟩ := e
  by_cases h : k = key
  · rw [get?, List.lookup_cons, h, beq_self_eq_true, if_pos rfl]
  · rw [get?, List.lookup_cons, beq_false_of_ne h, if_neg h]
    rfl

theorem get?_put (t : Table α) (key k : String) (v : α) :
    (put key v t).get? k = if k = key then some v else t.get? k := by
  induction t with
  | nil => rw [put, get?_cons]
  | cons e rest ih =>
    by_cases he : e.1 = key
    · rw [put, if_pos he, get?_cons, get?_cons, he]
      split <;> rfl
    · rw [put, if_neg he, get?_cons, get?_cons, ih]
      by_cases hk : k = e.1
      · rw [if_pos hk, if_pos hk, if_neg (hk ▸ he)]
      · rw [if_neg hk, if_neg hk]

theorem keys_put (t : Table α) (key : String) (v : α) :
    keys (put key v t) = if key ∈ keys t then keys t else keys t ++ [key] := by
  induction t with
  | nil => rfl
  | cons e rest ih =>
    simp only [keys] at ih
    by_cases he : e.1 = key
    · simp [put, keys, he]
    · by_cases h : key ∈ rest.map (·.1)
      · simp_all [put, keys]
      · have hne : key ≠ e.1 := fun h' => he h'.symm
        simp_all [put, keys]

end Table

end SchemaModel
