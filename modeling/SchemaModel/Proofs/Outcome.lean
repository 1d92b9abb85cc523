import Mathlib

/-!
# Outcomes of computations made of steps

A computation made of steps succeeds if every step does, and otherwise fails as its first failing
step.  The lemmas below take such a computation apart at its first step, once for success and once
for failure, so that no proof about a reading or a resolution has to look into `Except` itself.
Where only the error matters, the errors of the steps are listed one after the other, and the
computation ends with the first.
-/

namespace SchemaModel.Outcome

variable {ε ε' : Type} {α β : Type}

theorem bind_eq_ok {x : Except ε α} {g : α → Except ε β} {b : β} :
    x >>= g = .ok b ↔ ∃ a, x = .ok a ∧ g a = .ok b := by
  cases x with
  | error e => simp [bind, Except.bind]
  | ok a => simp [bind, Except.bind]

theorem bind_eq_error {x : Except ε α} {g : α → Except ε β} {e : ε} :
    x >>= g = .error e ↔ x = .error e ∨ ∃ a, x = .ok a ∧ g a = .error e := by
  cases x with
  | error e => simp [bind, Except.bind]
  | ok a => simp [bind, Except.bind]

theorem map_eq_ok {x : Except ε α} {g : α → β} {b : β} :
    x.map g = .ok b ↔ ∃ a, x = .ok a ∧ g a = b := by
  cases x <;> simp [Except.map]

theorem map_eq_error {x : Except ε α} {g : α → β} {e : ε} :
    x.map g = .error e ↔ x = .error e := by
  cases x <;> simp [Except.map]

theorem mapError_eq_ok {x : Except ε α} {g : ε → ε'} {a : α} :
    x.mapError g = .ok a ↔ x = .ok a := by
  cases x <;> simp [Except.mapError]

theorem mapError_eq_error {x : Except ε α} {g : ε → ε'} {e' : ε'} :
    x.mapError g = .error e' ↔ ∃ e, x = .error e ∧ g e = e' := by
  cases x <;> simp [Except.mapError]

/-- A computation whose first step has its result mapped has its own result mapped if what follows
the step does. -/
theorem bind_eq_map {α' β' : Type} {x : Except ε α} {x' : Except ε α'} {p : α → α'} {q : β → β'}
    {g : α → Except ε β} {g' : α' → Except ε β'} (first : x' = x.map p)
    (rest : ∀ a, g' (p a) = (g a).map q) : x' >>= g' = (x >>= g).map q := by
  subst first
  cases x with
  | error e => rfl
  | ok a => exact rest a

/-- Two computations that carry different states give the same results if their first steps do and
what follows does, whatever the states. -/
theorem bind_map_fst_congr {σ : Type} {x x' : Except ε (α × σ)} {g g' : α × σ → Except ε (β × σ)}
    (first : x.map Prod.fst = x'.map Prod.fst)
    (rest : ∀ a s s', x = .ok (a, s) → (g (a, s)).map Prod.fst = (g' (a, s')).map Prod.fst) :
    (x >>= g).map Prod.fst = (x' >>= g').map Prod.fst := by
  cases x with
  | error e =>
    obtain rfl : x' = .error e := map_eq_error.1 first.symm
    rfl
  | ok p =>
    obtain ⟨p', rfl, same⟩ := map_eq_ok.1 first.symm
    obtain ⟨a, s⟩ := p
    obtain ⟨a', s'⟩ := p'
    cases same
    exact rest a s s' rfl

theorem ok_or_error (x : Except ε α) : (∃ a, x = .ok a) ∨ ∃ e, x = .error e := by
  cases x with
  | ok a => exact .inl ⟨a, rfl⟩
  | error e => exact .inr ⟨e, rfl⟩

theorem not_exists_ok {x : Except ε α} {e : ε} (h : x = .error e) : ¬ ∃ a, x = .ok a := by
  rintro ⟨a, ok⟩
  cases h.symm.trans ok

/-! ### The error that ends a computation -/

/-- The error that a computation ends with, if it fails. -/
def error? : Except ε α → Option ε
  | .ok _ => none
  | .error e => some e

theorem error?_eq_some {x : Except ε α} {e : ε} : error? x = some e ↔ x = .error e := by
  cases x <;> simp [error?]

theorem error?_eq_none {x : Except ε α} : error? x = none ↔ ∃ a, x = .ok a := by
  cases x <;> simp [error?]

theorem error?_map (x : Except ε α) (g : α → β) : error? (x.map g) = error? x := by
  cases x <;> rfl

/-- A computation ends with the first of two lists of errors, one after the other, if its first
step ends with the first error of the one and what follows with the first error of the other. -/
theorem error?_bind {x : Except ε α} {g : α → Except ε β} {es es' : List ε}
    (first : error? x = es.head?) (rest : ∀ a, x = .ok a → error? (g a) = es'.head?) :
    error? (x >>= g) = (es ++ es').head? := by
  rw [List.head?_append, ← first]
  cases x with
  | error e => rfl
  | ok a => exact rest a rfl

end SchemaModel.Outcome
