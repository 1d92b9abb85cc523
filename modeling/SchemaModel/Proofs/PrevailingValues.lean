import SchemaModel.Proofs.Directives

/-!
# Values that prevail

Overrides are put on top of a table one after the other.  Which value counts for a key and where
the key stands are two matters: the value is that of the last override, and without one that of the
table; the place is that in the table, and without one that of the first override.

* `Table.Prevails` — the value that counts for a key;
* `Table.get?_putAll_eq_some` — it is the one that is found;
* `Table.keysUnder`, `Table.keys_putAll_eq` — the keys in order;
* `Table.mem_keysUnder` — exactly one value counts for each of them;
* `Includes.forall₂_matching` — a descriptor needs one directive for each name in it;
* `last_overrides_prevail` — the tables of a compilation.
-/

namespace SchemaModel

namespace Table

variable {α : Type}

/-! ### Values -/

/-- The value that counts for a key: that of the last entry put under it, or that of the table if
none is put under it. -/
def Prevails (t : Table α) (entries : List (String × α)) (key : String) (v : α) : Prop :=
  (∃ before after, entries = before ++ (key, v) :: after ∧ key ∉ after.map Prod.fst) ∨
    (key ∉ entries.map Prod.fst ∧ (key, v) ∈ t)

/-- Read from its end, a list of entries shows the last one under a key first. -/
theorem lookup_reverse_eq_some {entries : List (String × α)} {key : String} {v : α} :
    entries.reverse.lookup key = some v ↔
      ∃ before after, entries = before ++ (key, v) :: after ∧ key ∉ after.map Prod.fst := by
  rw [List.lookup_eq_some_iff]
  constructor
  · rintro ⟨later, earlier, split, others⟩
    refine ⟨earlier.reverse, later.reverse, ?_, ?_⟩
    · rw [← List.reverse_reverse entries, split]
      simp
    · intro mem
      obtain ⟨e, later, rfl⟩ := List.mem_map.1 mem
      have other := others e (List.mem_reverse.1 later)
      rw [bne_self_eq_false] at other
      cases other
  · rintro ⟨before, after, rfl, last⟩
    refine ⟨after.reverse, before.reverse, by simp, fun e later => ?_⟩
    refine bne_iff_ne.2 fun same => last ?_
    exact List.mem_map.2 ⟨e, List.mem_reverse.1 later, same.symm⟩

/-- **What is found after entries are put is the value that prevails.** -/
theorem get?_putAll_eq_some {t : Table α} (nodup : t.keys.Nodup) {entries : List (String × α)}
    {key : String} {v : α} : (t.putAll entries).get? key = some v ↔ t.Prevails entries key v := by
  have untouched : entries.reverse.lookup key = none ↔ key ∉ entries.map Prod.fst := by
    rw [lookup_eq_none, List.map_reverse, List.mem_reverse]
  have found : t.get? key = some v ↔ (key, v) ∈ t := ⟨mem_of_lookup, lookup_of_mem nodup⟩
  rw [get?_putAll, Option.or_eq_some_iff, lookup_reverse_eq_some, untouched, found, Prevails]

/-! ### Keys -/

/-- The keys once entries are put: those of the table in their order, then the new ones, each where
it is put for the first time. -/
def keysUnder (t : Table α) (entries : List (String × α)) : List String :=
  t.keys ++ ((entries.map Prod.fst).filter (· ∉ t.keys)).eraseDups

theorem keys_putAll_eq {t : Table α} (nodup : t.keys.Nodup) (entries : List (String × α)) :
    (t.putAll entries).keys = t.keysUnder entries := by
  have fresh : (entries.map Prod.fst).removeAll t.keys =
      (entries.map Prod.fst).filter (· ∉ t.keys) := by
    refine List.filter_congr fun key _ => ?_
    rw [List.elem_eq_mem, decide_not]
  rw [keys_putAll nodup, List.eraseDups_append, eraseDups_of_nodup nodup, fresh, keysUnder]

/-- The keys are those for which some value counts, and no more than one does. -/
theorem mem_keysUnder {t : Table α} (nodup : t.keys.Nodup) {entries : List (String × α)}
    {key : String} : key ∈ t.keysUnder entries ↔ ∃! v, t.Prevails entries key v := by
  simp only [← get?_putAll_eq_some nodup, ← keys_putAll_eq nodup]
  constructor
  · intro mem
    obtain ⟨v, found⟩ := Option.ne_none_iff_exists'.1 (mt lookup_eq_none.1 (not_not_intro mem))
    exact ⟨v, found, fun w found' => Option.some.inj (found'.symm.trans found)⟩
  · rintro ⟨v, found, -⟩
    exact List.mem_map_of_mem (f := Prod.fst) (mem_of_lookup found)

end Table

/-! ### Directives -/

/-- A descriptor needs one directive for each name that occurs in it, in the order of the names. -/
theorem Includes.forall₂_matching {includes : Includes} (nodup : (Table.keys includes).Nodup)
    (descriptor : String) :
    List.Forall₂ (fun name directive => includes.get? name = some directive)
      ((Table.keys includes).filter fun name => name.toList <:+: descriptor.toList)
      (includes.matching descriptor) := by
  have occurring : (Table.keys includes).filter (fun name => name.toList <:+: descriptor.toList) =
      (includes.filter fun e => Text.occursIn e.1 descriptor).map Prod.fst := by
    rw [Table.keys, List.filter_map]
    refine congrArg _ (List.filter_congr fun e _ => ?_)
    exact Bool.eq_iff_iff.2 (decide_eq_true_iff.trans Text.occursIn_iff.symm)
  rw [occurring, matching, List.forall₂_map_left_iff, List.forall₂_map_right_iff, List.forall₂_same]
  exact fun e mem => lookup_of_mem nodup (List.mem_of_mem_filter mem)

/-- **The last override of a name prevails, at the place where the name has stood first.**  A type
name has the spelling of its last override, or the default one, or none.  A descriptor needs exactly
one directive for each name that occurs in it, namely that of the last override of the name or the
default one; the default names come first, in their order and also if they are overridden, and then
the new names in the order of their first overrides. -/
theorem last_overrides_prevail (overrides : List (String × String)) :
    (∀ name spelling, (Spellings.overridden overrides).get? name = some spelling ↔
      Table.Prevails Spellings.default overrides name spelling) ∧
    (Table.keysUnder Includes.default overrides).Nodup ∧
    (∀ name, name ∈ Table.keysUnder Includes.default overrides ↔
      ∃! directive, Table.Prevails Includes.default overrides name directive) ∧
    ∀ descriptor, List.Forall₂ (Table.Prevails Includes.default overrides)
      ((Table.keysUnder Includes.default overrides).filter
        fun name => name.toList <:+: descriptor.toList)
      ((Includes.overridden overrides).matching descriptor) := by
  have spellings : (Table.keys Spellings.default).Nodup := by decide
  have includes : (Table.keys Includes.default).Nodup := by decide
  have keys : Table.keys (Includes.overridden overrides) =
      Table.keysUnder Includes.default overrides := Table.keys_putAll_eq includes overrides
  refine ⟨fun name spelling => Table.get?_putAll_eq_some spellings, ?_,
    fun name => Table.mem_keysUnder includes, fun descriptor => ?_⟩
  · rw [← keys]
    exact Includes.overridden_nodup overrides
  · rw [← keys]
    refine (Includes.forall₂_matching (Includes.overridden_nodup overrides) descriptor).imp ?_
    exact fun name directive => (Table.get?_putAll_eq_some includes).1

/-- The empty name occurs in every descriptor. -/
example : (Includes.overridden
    [("", "<a>"), ("std::string_view", "<b>"), ("std::string", "<c>"), ("", "<d>")]).matching
      "std::vector<std::string_view>" = ["<c>", "<vector>", "<d>", "<b>"] := by
  decide

end SchemaModel
