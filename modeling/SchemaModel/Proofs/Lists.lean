import Mathlib

/-!
# Lists of values under names

The children of a node stand in lists, and the members of an object in lists of named values.  Two
such lists side by side have related values at equal places, and equal names where they have names.
Looking up a name finds a value under it, and the only one if no name is repeated.  In a list of
characters, a stretch that goes on is told from a rest that begins with what stops it.
-/

namespace SchemaModel

/-! ### Lists side by side -/

section SideBySide

variable {α β : Type} {R : α → β → Prop}

theorem Forall₂.getElem?_left {xs : List α} {ys : List β} (h : List.Forall₂ R xs ys) {i : Nat}
    {x : α} (hx : xs[i]? = some x) : ∃ y, ys[i]? = some y ∧ R x y := by
  induction h generalizing i with
  | nil => simp at hx
  | @cons _ y _ _ related _ ih =>
    cases i with
    | zero =>
      cases hx
      exact ⟨y, rfl, related⟩
    | succ i => exact ih hx

theorem Forall₂.getElem?_right {xs : List α} {ys : List β} (h : List.Forall₂ R xs ys) {i : Nat}
    {y : β} (hy : ys[i]? = some y) : ∃ x, xs[i]? = some x ∧ R x y :=
  Forall₂.getElem?_left (List.Forall₂.flip h) hy

theorem Forall₂.imp_of_mem_right {S : α → β → Prop} {xs : List α} {ys : List β}
    (h : List.Forall₂ R xs ys) (imp : ∀ x, ∀ y ∈ ys, R x y → S x y) : List.Forall₂ S xs ys := by
  induction h with
  | nil => exact .nil
  | cons related _ ih =>
    exact .cons (imp _ _ (by simp) related) (ih fun x y hy => imp x y (by simp [hy]))

theorem Rel.imp_of_eq_some {S : α → β → Prop} {x : Option α} {y : Option β}
    (h : Option.Rel R x y) (imp : ∀ a b, y = some b → R a b → S a b) : Option.Rel S x y := by
  cases h with
  | none => exact .none
  | some related => exact .some (imp _ _ rfl related)

theorem Rel.exists_of_eq_some {x : Option α} {y : Option β} (h : Option.Rel R x y) {a : α}
    (hx : x = some a) : ∃ b, y = some b ∧ R a b := by
  cases h with
  | none => cases hx
  | some related =>
    cases hx
    exact ⟨_, rfl, related⟩

theorem Rel.swap {S : β → α → Prop} {x : Option α} {y : Option β} (h : Option.Rel R x y)
    (swap : ∀ a b, x = some a → R a b → S b a) : Option.Rel S y x := by
  cases h with
  | none => exact .none
  | some related => exact .some (swap _ _ rfl related)

theorem Rel.map_eq {γ : Type} {x : Option α} {y : Option β} (h : Option.Rel R x y) {f : α → γ}
    {g : β → γ} (same : ∀ a b, R a b → g b = f a) : y.map g = x.map f := by
  cases h with
  | none => rfl
  | some related => exact congrArg some (same _ _ related)

theorem rel_eq_map_iff {f : β → α} {x : Option α} {y : Option β} :
    Option.Rel (fun a b => a = f b) x y ↔ x = y.map f := by
  cases x <;> cases y <;> simp

theorem Rel.isNone_eq {x : Option α} {y : Option β} (h : Option.Rel R x y) :
    y.isNone = x.isNone := by
  cases h <;> rfl

/-- Two lists are related place by place if every value has a partner at its place. -/
theorem forall₂_of_getElem? {xs : List α} {ys : List β}
    (left : ∀ (i : Nat) x, xs[i]? = some x → ∃ y, ys[i]? = some y ∧ R x y)
    (right : ∀ (i : Nat) y, ys[i]? = some y → ∃ x, xs[i]? = some x) : List.Forall₂ R xs ys := by
  induction xs generalizing ys with
  | nil =>
    cases ys with
    | nil => exact .nil
    | cons y ys =>
      obtain ⟨x, hx⟩ := right 0 y rfl
      cases hx
  | cons x xs ih =>
    obtain ⟨y, hy, related⟩ := left 0 x rfl
    cases ys with
    | nil => cases hy
    | cons y' ys =>
      cases hy
      exact .cons related (ih (fun i => left (i + 1)) fun i => right (i + 1))

/-- What stands beside the one of two related lists has something like it beside the other. -/
theorem Forall₂.exists_simulated {γ δ : Type} {S : α → γ → Prop} {S' : β → δ → Prop}
    {T : γ → δ → Prop} {xs : List α} {ys : List β} {zs : List γ} (related : List.Forall₂ R xs ys)
    (beside : List.Forall₂ S xs zs)
    (simulate : ∀ x y z, R x y → S x z → ∃ w, S' y w ∧ T z w) :
    ∃ ws, List.Forall₂ S' ys ws ∧ List.Forall₂ T zs ws := by
  induction related generalizing zs with
  | nil =>
    cases beside
    exact ⟨[], .nil, .nil⟩
  | cons first _ ih =>
    cases beside with
    | cons own others =>
      obtain ⟨w, hw, like⟩ := simulate _ _ _ first own
      obtain ⟨ws, hws, alike⟩ := ih others
      exact ⟨w :: ws, .cons hw hws, .cons like alike⟩

theorem map_fst_zip_sublist (xs : List α) (ys : List β) :
    ((xs.zip ys).map Prod.fst).Sublist xs := by
  induction xs generalizing ys with
  | nil => exact List.Sublist.refl _
  | cons x rest ih =>
    cases ys with
    | nil => exact List.nil_sublist _
    | cons y ys => exact (ih ys).cons_cons x

theorem map_fst_filterMap_sublist {ι : Type} (xs : List ι) (name : ι → α) (find : ι → Option β) :
    ((xs.filterMap fun x => (find x).map fun y => (name x, y)).map Prod.fst).Sublist
      (xs.map name) := by
  induction xs with
  | nil => exact List.Sublist.refl _
  | cons x rest ih =>
    rw [List.filterMap_cons, List.map_cons]
    cases find x with
    | none => exact .cons _ ih
    | some y => exact ih.cons_cons _

theorem Forall₂.map_eq {γ : Type} {xs : List α} {ys : List β} (h : List.Forall₂ R xs ys)
    {f : α → γ} {g : β → γ} (same : ∀ a b, R a b → g b = f a) : ys.map g = xs.map f := by
  induction h with
  | nil => rfl
  | cons related _ ih => rw [List.map_cons, List.map_cons, same _ _ related, ih]

theorem forall₂_iff_eq_map {f : α → β} (same : ∀ x y, R x y ↔ y = f x) {xs : List α}
    {ys : List β} : List.Forall₂ R xs ys ↔ ys = xs.map f := by
  constructor
  · intro h
    induction h with
    | nil => rfl
    | cons related _ ih => rw [List.map_cons, ← (same _ _).1 related, ih]
  · rintro rfl
    exact List.forall₂_map_right_iff.2 (List.forall₂_same.2 fun x _ => (same x _).2 rfl)

theorem Forall₂.unique_right {xs : List α} {ys ys' : List β} (h : List.Forall₂ R xs ys)
    (h' : List.Forall₂ R xs ys') (unique : ∀ x ∈ xs, ∀ y y', R x y → R x y' → y = y') :
    ys = ys' := by
  induction h generalizing ys' with
  | nil =>
    cases h'
    rfl
  | cons related _ ih =>
    cases h' with
    | cons related' others =>
      rw [unique _ List.mem_cons_self _ _ related related',
        ih others fun x mem => unique x (List.mem_cons_of_mem _ mem)]

theorem exists_forall₂ {xs : List α} (each : ∀ x ∈ xs, ∃ y, R x y) :
    ∃ ys, List.Forall₂ R xs ys := by
  induction xs with
  | nil => exact ⟨[], .nil⟩
  | cons x rest ih =>
    obtain ⟨y, related⟩ := each x List.mem_cons_self
    obtain ⟨ys, others⟩ := ih fun x mem => each x (List.mem_cons_of_mem _ mem)
    exact ⟨y :: ys, .cons related others⟩

/-- If not all values in a list have a property, there is a first one that does not. -/
theorem exists_first_not {p : α → Prop} {xs : List α} (h : ¬ ∀ x ∈ xs, p x) :
    ∃ before x after, xs = before ++ x :: after ∧ (∀ y ∈ before, p y) ∧ ¬ p x := by
  induction xs with
  | nil => exact absurd (List.forall_mem_nil p) h
  | cons x xs ih =>
    by_cases first : p x
    · have later : ¬ ∀ y ∈ xs, p y := fun all => h (List.forall_mem_cons.2 ⟨first, all⟩)
      obtain ⟨before, y, after, rfl, good, bad⟩ := ih later
      exact ⟨x :: before, y, after, rfl, List.forall_mem_cons.2 ⟨first, good⟩, bad⟩
    · exact ⟨[], x, xs, rfl, List.forall_mem_nil p, first⟩

/-- Two lists that are both related to a third one are related to each other. -/
theorem Forall₂.through {γ : Type} {S : γ → β → Prop} {xs : List α} {ys : List β} {zs : List γ}
    (h : List.Forall₂ R xs ys) (h' : List.Forall₂ S zs ys) :
    List.Forall₂ (fun x z => ∃ y, R x y ∧ S z y) xs zs := by
  induction h generalizing zs with
  | nil =>
    cases h'
    exact .nil
  | cons related _ ih =>
    cases h' with
    | cons related' others => exact .cons ⟨_, related, related'⟩ (ih others)

theorem Rel.through {γ : Type} {S : γ → β → Prop} {x : Option α} {y : Option β} {z : Option γ}
    (h : Option.Rel R x y) (h' : Option.Rel S z y) :
    Option.Rel (fun x z => ∃ y, R x y ∧ S z y) x z := by
  cases h with
  | none =>
    cases h'
    exact .none
  | some related =>
    cases h' with
    | some related' => exact .some ⟨_, related, related'⟩

/-- Two lists of named values have the same names in order, and related values. -/
def NamedForall₂ (R : α → β → Prop) : List (String × α) → List (String × β) → Prop :=
  List.Forall₂ fun p q => p.1 = q.1 ∧ R p.2 q.2

theorem namedForall₂_iff {ps : List (String × α)} {qs : List (String × β)} :
    NamedForall₂ R ps qs ↔
      ps.map Prod.fst = qs.map Prod.fst ∧ List.Forall₂ R (ps.map Prod.snd) (qs.map Prod.snd) := by
  induction ps generalizing qs with
  | nil => cases qs <;> simp [NamedForall₂]
  | cons p ps ih =>
    cases qs with
    | nil => simp [NamedForall₂]
    | cons q qs =>
      rw [NamedForall₂, List.forall₂_cons, ← NamedForall₂, ih]
      simp only [List.map_cons, List.cons.injEq, List.forall₂_cons]
      tauto

theorem NamedForall₂.flip {ps : List (String × α)} {qs : List (String × β)}
    (h : NamedForall₂ R ps qs) : NamedForall₂ (fun y x => R x y) qs ps :=
  List.Forall₂.flip (List.Forall₂.imp (fun _ _ related => ⟨related.1.symm, related.2⟩) h)

theorem NamedForall₂.mem_left {ps : List (String × α)} {qs : List (String × β)}
    (h : NamedForall₂ R ps qs) {name : String} {x : α} (hx : (name, x) ∈ ps) :
    ∃ y, (name, y) ∈ qs ∧ R x y := by
  obtain ⟨i, hi⟩ := List.mem_iff_getElem?.1 hx
  obtain ⟨⟨key, y⟩, hy, same, related⟩ := Forall₂.getElem?_left h hi
  cases same
  exact ⟨y, List.mem_of_getElem? hy, related⟩

theorem NamedForall₂.mem_right {ps : List (String × α)} {qs : List (String × β)}
    (h : NamedForall₂ R ps qs) {name : String} {y : β} (hy : (name, y) ∈ qs) :
    ∃ x, (name, x) ∈ ps ∧ R x y := h.flip.mem_left hy

theorem exists_namedForall₂ {ps : List (String × α)} (each : ∀ p ∈ ps, ∃ y, R p.2 y) :
    ∃ qs, NamedForall₂ R ps qs :=
  exists_forall₂ fun p mem => (each p mem).elim fun y related => ⟨(p.1, y), rfl, related⟩

theorem NamedForall₂.through {γ : Type} {S : γ → β → Prop} {ps : List (String × α)}
    {qs : List (String × β)} {ms : List (String × γ)} (h : NamedForall₂ R ps qs)
    (h' : NamedForall₂ S ms qs) : NamedForall₂ (fun x z => ∃ y, R x y ∧ S z y) ps ms :=
  (Forall₂.through h h').imp fun _ _ ⟨q, related, related'⟩ =>
    ⟨related.1.trans related'.1.symm, q.2, related.2, related'.2⟩

end SideBySide

/-! ### Look-ups -/

section LookUp

variable {κ α : Type} [DecidableEq κ]

theorem lookup_eq_none {l : List (κ × α)} {k : κ} : l.lookup k = none ↔ k ∉ l.map Prod.fst := by
  rw [List.lookup_eq_none_iff, List.mem_map]
  constructor
  · rintro absent ⟨p, hp, rfl⟩
    simpa using absent p hp
  · exact fun absent p hp => bne_iff_ne.2 fun same => absent ⟨p, hp, same.symm⟩

theorem mem_of_lookup {l : List (κ × α)} {k : κ} {x : α} (h : l.lookup k = some x) :
    (k, x) ∈ l := by
  obtain ⟨before, after, rfl, -⟩ := List.lookup_eq_some_iff.1 h
  simp

theorem lookup_of_mem {l : List (κ × α)} (nodup : (l.map Prod.fst).Nodup) {k : κ} {x : α}
    (h : (k, x) ∈ l) : l.lookup k = some x := by
  induction l with
  | nil => cases h
  | cons p l ih =>
    obtain ⟨key, y⟩ := p
    rw [List.map_cons, List.nodup_cons] at nodup
    rcases List.mem_cons.1 h with same | mem
    · cases same
      exact List.lookup_cons_self
    · have ne : k ≠ key := by
        rintro rfl
        exact nodup.1 (List.mem_map.2 ⟨(k, x), mem, rfl⟩)
      rw [List.lookup_cons, beq_false_of_ne ne]
      exact ih nodup.2 mem

theorem lookup_zip {ks : List κ} (nodup : ks.Nodup) (xs : List α) {i : Nat} {k : κ}
    (hk : ks[i]? = some k) : (ks.zip xs).lookup k = xs[i]? := by
  induction ks generalizing i xs with
  | nil => cases hk
  | cons first rest ih =>
    rw [List.nodup_cons] at nodup
    cases xs with
    | nil => rfl
    | cons x xs =>
      cases i with
      | zero =>
        cases hk
        exact List.lookup_cons_self
      | succ i =>
        have ne : k ≠ first := by
          rintro rfl
          exact nodup.1 (List.mem_of_getElem? hk)
        rw [List.zip_cons_cons, List.lookup_cons, beq_false_of_ne ne]
        exact ih nodup.2 xs hk

/-- Values that are listed under different names are found under them. -/
theorem lookup_filterMap {ι : Type} {xs : List ι} {name : ι → κ} (nodup : (xs.map name).Nodup)
    (find : ι → Option α) {x : ι} (mem : x ∈ xs) :
    (xs.filterMap fun x => (find x).map fun y => (name x, y)).lookup (name x) = find x := by
  have distinct := nodup.sublist (map_fst_filterMap_sublist xs name find)
  have listed : ∀ k y, (k, y) ∈ xs.filterMap (fun x => (find x).map fun y => (name x, y)) →
      k = name x → find x = some y := by
    intro k y listed same
    obtain ⟨x', mem', entry⟩ := List.mem_filterMap.1 listed
    obtain ⟨y', found, entry⟩ := Option.map_eq_some_iff.1 entry
    cases entry
    rwa [← List.inj_on_of_nodup_map nodup mem' mem same]
  cases found : find x with
  | some y => exact lookup_of_mem distinct (List.mem_filterMap.2 ⟨x, mem, by rw [found]; rfl⟩)
  | none =>
    cases hy : (xs.filterMap fun x => (find x).map fun y => (name x, y)).lookup (name x) with
    | none => rfl
    | some y => cases found.symm.trans (listed _ y (mem_of_lookup hy) rfl)

theorem NamedForall₂.lookup {α β : Type} {R : α → β → Prop} {ps : List (String × α)}
    {qs : List (String × β)} (h : NamedForall₂ R ps qs) (name : String) :
    Option.Rel R (ps.lookup name) (qs.lookup name) := by
  induction h with
  | nil => exact .none
  | @cons p q _ _ related _ ih =>
    obtain ⟨key, x⟩ := p
    obtain ⟨key', y⟩ := q
    obtain ⟨rfl, related⟩ : key = key' ∧ R x y := related
    rw [List.lookup_cons, List.lookup_cons]
    cases name == key with
    | true => exact .some related
    | false => exact ih

end LookUp

/-! ### Stretches -/

/-- What goes on, before a rest that begins with what does not, is all that stands before it. -/
theorem eq_of_stops {α : Type} {p : α → Bool} {xs ys rest rest' : List α}
    (goes : ∀ x ∈ xs, p x = true) (goes' : ∀ y ∈ ys, p y = true)
    (stops : ∀ x, rest.head? = some x → p x = false)
    (stops' : ∀ x, rest'.head? = some x → p x = false) (same : xs ++ rest = ys ++ rest') :
    xs = ys ∧ rest = rest' := by
  have all : ∀ {zs r : List α}, (∀ z ∈ zs, p z = true) →
      (∀ x, r.head? = some x → p x = false) → (zs ++ r).takeWhile p = zs := by
    intro zs r goes stops
    rw [List.takeWhile_append_of_pos goes]
    cases r with
    | nil => rw [List.takeWhile_nil, List.append_nil]
    | cons x r => rw [List.takeWhile_cons_of_neg (by simp [stops x rfl]), List.append_nil]
  have stretches : xs = ys := by rw [← all goes stops, same, all goes' stops']
  subst stretches
  exact ⟨rfl, List.append_cancel_left same⟩

/-! ### Sizes -/

theorem sizeOf_lt_of_getElem? {α : Type} [SizeOf α] {xs : List α} {i : Nat} {x : α}
    (h : xs[i]? = some x) : sizeOf x < sizeOf xs :=
  List.sizeOf_lt_of_mem (List.mem_of_getElem? h)

theorem sizeOf_snd_lt_of_mem {α : Type} [SizeOf α] {ps : List (String × α)} {name : String} {x : α}
    (h : (name, x) ∈ ps) : sizeOf x < sizeOf ps := by
  have below := List.sizeOf_lt_of_mem h
  rw [Prod.mk.sizeOf_spec] at below
  omega

end SchemaModel
