import SchemaModel.Proofs.Lists

/-!
# Written lists

Parts are written one after the other, with a separator between them and a closing character at the
end.  Whether the list can be told from its text is a matter of the parts: each has to be told from
other parts, whatever goes on behind them.

* `Delimited` — what is written for a value is told from what may follow it;
* `eq_of_separatedTail` — the parts behind the first one;
* `eq_of_separated` — all parts, up to the closing character.
-/

namespace SchemaModel

variable {α : Type} {May : List Char → Prop} {Writes : α → String → Prop} {sep : String}
  {close : Char}

/-- Of two texts that begin with what is written for a value and go on with what may follow, the
values are the same if the texts are, and so are the rests. -/
def Delimited (May : List Char → Prop) (Writes : α → String → Prop) (x : α) : Prop :=
  ∀ {y s t rest rest'}, Writes x s → Writes y t → May rest → May rest' →
    s.toList ++ rest = t.toList ++ rest' → x = y ∧ rest = rest'

/-- The parts behind the first one, each behind its separator. -/
def separatedTail (sep : String) (parts : List String) : List Char :=
  parts.flatMap fun s => sep.toList ++ s.toList

theorem separatedTail_cons (sep s : String) (ss : List String) (rest : List Char) :
    separatedTail sep (s :: ss) ++ rest =
      sep.toList ++ (s.toList ++ (separatedTail sep ss ++ rest)) := by
  rw [separatedTail, List.flatMap_cons, List.append_assoc, List.append_assoc]
  rfl

theorem toList_intercalate_cons (sep s : String) (ss : List String) :
    (sep.intercalate (s :: ss)).toList = s.toList ++ separatedTail sep ss := by
  rw [String.toList_intercalate]
  induction ss generalizing s with
  | nil => simp [separatedTail]
  | cons t ss ih =>
    rw [List.map_cons, List.map_cons, List.intercalate_cons_cons, ← List.map_cons, ih t]
    simp [separatedTail]

/-- The parts behind the first one may follow it if a separator and the closing character may. -/
theorem may_separatedTail (separates : ∀ rest, May (sep.toList ++ rest))
    (closes : ∀ rest, May (close :: rest)) (ss : List String) (rest : List Char) :
    May (separatedTail sep ss ++ close :: rest) := by
  cases ss with
  | nil => exact closes rest
  | cons s ss =>
    rw [separatedTail_cons]
    exact separates _

theorem eq_of_separatedTail (separates : ∀ rest, May (sep.toList ++ rest))
    (closes : ∀ rest, May (close :: rest))
    (apart : ∀ rest rest', sep.toList ++ rest ≠ close :: rest') {xs ys : List α}
    {ss ts : List String} {rest rest' : List Char} (written : List.Forall₂ Writes xs ss)
    (written' : List.Forall₂ Writes ys ts) (delimited : ∀ x ∈ xs, Delimited May Writes x)
    (same : separatedTail sep ss ++ close :: rest = separatedTail sep ts ++ close :: rest') :
    xs = ys ∧ rest = rest' := by
  induction written generalizing ys ts with
  | nil =>
    cases written' with
    | nil => exact ⟨rfl, (List.cons.inj same).2⟩
    | cons =>
      rw [separatedTail_cons] at same
      exact absurd same.symm (apart _ _)
  | @cons x s xs ss head _ ih =>
    cases written' with
    | nil =>
      rw [separatedTail_cons] at same
      exact absurd same (apart _ _)
    | @cons y t ys ts head' others' =>
      rw [separatedTail_cons, separatedTail_cons] at same
      obtain ⟨rfl, rests⟩ := delimited x List.mem_cons_self head head'
        (may_separatedTail separates closes ss rest) (may_separatedTail separates closes ts rest')
        (List.append_cancel_left same)
      obtain ⟨rfl, rests⟩ :=
        ih others' (fun x mem => delimited x (List.mem_cons_of_mem _ mem)) rests
      exact ⟨rfl, rests⟩

/-- **Delimited parts with separators between them are told from one another**, also from no parts
at all, if none of them begins with the closing character. -/
theorem eq_of_separated (separates : ∀ rest, May (sep.toList ++ rest))
    (closes : ∀ rest, May (close :: rest))
    (apart : ∀ rest rest', sep.toList ++ rest ≠ close :: rest')
    (opens : ∀ x s, Writes x s → ∃ c cs, s.toList = c :: cs ∧ c ≠ close) {xs ys : List α}
    {ss ts : List String} {rest rest' : List Char} (written : List.Forall₂ Writes xs ss)
    (written' : List.Forall₂ Writes ys ts) (delimited : ∀ x ∈ xs, Delimited May Writes x)
    (same : (sep.intercalate ss).toList ++ close :: rest =
      (sep.intercalate ts).toList ++ close :: rest') : xs = ys ∧ rest = rest' := by
  have begun : ∀ x s ss r r', Writes x s →
      (sep.intercalate (s :: ss)).toList ++ close :: r ≠ close :: r' := by
    intro x s ss r r' own closed
    obtain ⟨c, cs, shape, other⟩ := opens x s own
    rw [toList_intercalate_cons, shape] at closed
    exact other (List.cons.inj closed).1
  cases written with
  | nil =>
    cases written' with
    | nil => exact ⟨rfl, (List.cons.inj same).2⟩
    | cons head' others' => exact absurd same.symm (begun _ _ _ _ _ head')
  | @cons x s xs ss head others =>
    cases written' with
    | nil => exact absurd same (begun _ _ _ _ _ head)
    | @cons y t ys ts head' others' =>
      rw [toList_intercalate_cons, toList_intercalate_cons, List.append_assoc,
        List.append_assoc] at same
      obtain ⟨rfl, rests⟩ := delimited x List.mem_cons_self head head'
        (may_separatedTail separates closes ss rest) (may_separatedTail separates closes ts rest')
        same
      obtain ⟨rfl, rests⟩ := eq_of_separatedTail separates closes apart others others'
        (fun x mem => delimited x (List.mem_cons_of_mem _ mem)) rests
      exact ⟨rfl, rests⟩

end SchemaModel
