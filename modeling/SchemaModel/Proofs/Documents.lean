import SchemaModel.Json.Reader
import SchemaModel.Proofs.Tables
import SchemaModel.Proofs.Walk

/-!
# What every document satisfies

An object that is read keeps one member for each key, and a number too large for 64 bits is an
error.  So in everything that is read, no object repeats a key and all numbers are finite, and
documents that do not come from a text are promised to be the same.

* `Json.HasDistinctKeys.inside`, `Json.HasFiniteNumbers.inside` — both hold of every value inside;
* `Json.IsDocument` — both together;
* `Json.tokens_finite` — the numbers among the tokens of a text are finite;
* `Json.Reader.step_isFine` — what one step of the reader keeps;
* `Json.isDocument_of_parse` — a value that is read is a document.
-/

namespace SchemaModel.Json

/-! ### Distinct keys -/

theorem itemsHaveDistinctKeys_iff {items : List Json} :
    ItemsHaveDistinctKeys items ↔ ∀ v ∈ items, v.HasDistinctKeys := by
  induction items with
  | nil => simp [ItemsHaveDistinctKeys]
  | cons v rest ih => rw [ItemsHaveDistinctKeys, ih, List.forall_mem_cons]

theorem membersHaveDistinctKeys_iff {members : List (String × Json)} :
    MembersHaveDistinctKeys members ↔ ∀ m ∈ members, m.2.HasDistinctKeys := by
  induction members with
  | nil => simp [MembersHaveDistinctKeys]
  | cons m rest ih => rw [MembersHaveDistinctKeys, ih, List.forall_mem_cons]

theorem HasDistinctKeys.inside {v u : Json} {k : Nat} (h : v.HasDistinctKeys)
    (inside : v.Inside k u) : u.HasDistinctKeys := by
  induction inside with
  | here v => exact h
  | @deeper v u w k part _ ih =>
    refine ih ?_
    cases v with
    | array items => exact itemsHaveDistinctKeys_iff.1 h u part
    | object members =>
      obtain ⟨key, mem⟩ := part
      exact membersHaveDistinctKeys_iff.1 h.2 (key, u) mem
    | _ => exact part.elim

theorem HasDistinctKeys.child {v w : Json} {b : Branch} (h : v.HasDistinctKeys)
    (child : v.Child b w) : w.HasDistinctKeys := by
  obtain ⟨k, inside⟩ := child.inside
  exact h.inside inside

/-! ### Finite numbers -/

/-- No number inside the value is infinite or undefined. -/
def HasFiniteNumbers (v : Json) : Prop := ∀ k n, v.Inside k (.number n) → n.isFinite = true

theorem HasFiniteNumbers.inside {v u : Json} {k : Nat} (h : v.HasFiniteNumbers)
    (inside : v.Inside k u) : u.HasFiniteNumbers :=
  fun m n inside' => h (k + m) n (inside.trans inside')

/-- The numbers inside a value are itself, if it is one, and those inside its parts. -/
theorem hasFiniteNumbers_iff {v : Json} :
    v.HasFiniteNumbers ↔
      (∀ n, v = .number n → n.isFinite = true) ∧ ∀ u, v.Part u → u.HasFiniteNumbers := by
  constructor
  · intro h
    refine ⟨fun n hn => ?_, fun u part => h.inside (.deeper part (.here u))⟩
    subst hn
    exact h 0 n (.here _)
  · rintro ⟨own, parts⟩ k n inside
    cases inside with
    | here => exact own n rfl
    | deeper part inside => exact parts _ part _ n inside

theorem hasFiniteNumbers_object {members : List (String × Json)} :
    (object members).HasFiniteNumbers ↔ ∀ m ∈ members, m.2.HasFiniteNumbers := by
  rw [hasFiniteNumbers_iff]
  constructor
  · rintro ⟨-, parts⟩ ⟨key, v⟩ mem
    exact parts v ⟨key, mem⟩
  · intro each
    refine ⟨fun n same => ?_, fun v ⟨key, mem⟩ => each (key, v) mem⟩
    cases same

/-! ### Documents -/

/-- No object inside the value repeats a key, and all numbers inside are finite. -/
structure IsDocument (v : Json) : Prop where
  distinct : v.HasDistinctKeys
  finite : v.HasFiniteNumbers

theorem isDocument_array {items : List Json} (each : ∀ v ∈ items, v.IsDocument) :
    (array items).IsDocument := by
  refine ⟨itemsHaveDistinctKeys_iff.2 fun v mem => (each v mem).distinct, ?_⟩
  refine hasFiniteNumbers_iff.2 ⟨fun n same => ?_, fun v part => (each v part).finite⟩
  cases same

theorem isDocument_object {members : List (String × Json)} (nodup : (members.map Prod.fst).Nodup)
    (each : ∀ m ∈ members, m.2.IsDocument) : (object members).IsDocument := by
  refine ⟨⟨nodup, membersHaveDistinctKeys_iff.2 fun m mem => (each m mem).distinct⟩, ?_⟩
  exact hasFiniteNumbers_object.2 fun m mem => (each m mem).finite

theorem isDocument_number {n : Number} (finite : n.isFinite = true) : (number n).IsDocument := by
  refine ⟨trivial, hasFiniteNumbers_iff.2 ⟨fun n' same => ?_, fun u part => part.elim⟩⟩
  cases same
  exact finite

/-- A value without parts that is no number. -/
theorem isDocument_leaf {v : Json} (distinct : v.HasDistinctKeys) (noNumber : ∀ n, v ≠ .number n)
    (noPart : ∀ u, ¬ v.Part u) : v.IsDocument :=
  ⟨distinct, hasFiniteNumbers_iff.2
    ⟨fun n same => absurd same (noNumber n), fun u part => absurd part (noPart u)⟩⟩

theorem isDocument_string (s : String) : (string s).IsDocument :=
  isDocument_leaf trivial (fun n same => by cases same) fun u part => part

/-! ### Tokens -/

/-- A token that is a number is a finite one. -/
def Token.IsFinite : Token → Prop
  | .number (some n) => n.isFinite = true
  | _ => True

theorem Numeral.isFinite_of_float? {n : Numeral} {x : Number} (h : n.float? = some x) :
    x.isFinite = true := by
  unfold float? at h
  simp only at h
  split at h
  · rename_i finite
    cases h
    exact finite
  · cases h

theorem Numeral.isFinite_of_value? {n : Numeral} {x : Number} (h : n.value? = some x) :
    x.isFinite = true := by
  unfold value? at h
  split at h
  · split at h
    · cases h
      rfl
    · split at h
      · cases h
        rfl
      · exact isFinite_of_float? h
  · exact isFinite_of_float? h

theorem Numeral.isFinite_token (n : Numeral) : (Token.number n.value?).IsFinite := by
  cases h : n.value? with
  | none => trivial
  | some x => exact isFinite_of_value? h

namespace Scan

/-- A word that is being read stands for a finite token. -/
def IsFinite : Scan → Prop
  | .word _ token => token.IsFinite
  | _ => True

/-- What a character yields: finite tokens, and a scan that goes on the same way. -/
def YieldsFinite (r : List Token × Scan) : Prop := (∀ t ∈ r.1, t.IsFinite) ∧ r.2.IsFinite

theorem start_yieldsFinite (c : Char) : YieldsFinite (start c) := by
  unfold start
  split <;> (try split) <;> simp [YieldsFinite, IsFinite, Token.IsFinite]

theorem yieldsFinite_cons {t : Token} (ht : t.IsFinite) {r : List Token × Scan}
    (h : YieldsFinite r) : YieldsFinite (t :: r.1, r.2) :=
  ⟨List.forall_mem_cons.2 ⟨ht, h.1⟩, h.2⟩

theorem step_yieldsFinite {scan : Scan} (h : scan.IsFinite) (c : Char) :
    YieldsFinite (scan.step c) := by
  unfold step
  split
  · exact start_yieldsFinite c
  · exact yieldsFinite_cons h (start_yieldsFinite c)
  · split
    · split
      · simpa [YieldsFinite, IsFinite] using h
      · simpa [YieldsFinite, IsFinite] using h
    · simp [YieldsFinite, IsFinite, Token.IsFinite]
  · rename_i part n
    split
    · simp [YieldsFinite, IsFinite]
    · exact yieldsFinite_cons n.isFinite_token (start_yieldsFinite c)
    · simp [YieldsFinite, IsFinite, Token.IsFinite]
  · split <;> simp [YieldsFinite, IsFinite, Token.IsFinite]
  · simp [YieldsFinite, IsFinite]

theorem finish_finite (scan : Scan) : ∀ t ∈ scan.finish, t.IsFinite := by
  unfold finish
  split
  · simp
  · simp
  · simp [Token.IsFinite]
  · rename_i n
    split
    · simpa using n.isFinite_token
    · simp [Token.IsFinite]
  · split <;> simp [Token.IsFinite]

theorem foldl_advance_finite (text : List Char) {scan : Scan} {done : List Token}
    (hscan : scan.IsFinite) (hdone : ∀ t ∈ done, t.IsFinite) :
    ∀ t ∈ (text.foldl advance (scan, done)).2, t.IsFinite := by
  induction text generalizing scan done with
  | nil => exact hdone
  | cons c text ih =>
    obtain ⟨found, hnext⟩ := step_yieldsFinite hscan c
    refine ih hnext fun t mem => ?_
    rcases List.mem_append.1 mem with new | old
    · exact found t (List.mem_reverse.1 new)
    · exact hdone t old

end Scan

/-- **The numbers among the tokens of a text are finite.** -/
theorem tokens_finite (text : List Char) : ∀ t ∈ tokens text, t.IsFinite := by
  intro t mem
  have start : Scan.between.IsFinite := trivial
  have none : ∀ t ∈ ([] : List Token), t.IsFinite := List.forall_mem_nil _
  rcases List.mem_append.1 mem with done | last
  · exact Scan.foldl_advance_finite text start none t (List.mem_reverse.1 done)
  · exact Scan.finish_finite _ t last

/-! ### Reading -/

namespace Reader

/-- What an open array or object holds so far are documents. -/
def Frame.IsFine : Frame → Prop
  | .list done => ∀ v ∈ done, v.IsDocument
  | .object done _ => ∀ m ∈ done, m.2.IsDocument

/-- An outcome is a document, or all that is open holds documents. -/
def Step.IsFine : Step → Prop
  | .more _ stack => ∀ frame ∈ stack, Frame.IsFine frame
  | .done v => v.IsDocument

variable {stack : List Frame} {t : Token} {next : Step}

theorem complete_isFine {v : Json} (hv : v.IsDocument)
    (h : ∀ frame ∈ stack, Frame.IsFine frame) : (complete v stack).IsFine := by
  cases stack with
  | nil => exact hv
  | cons frame stack =>
    obtain ⟨hframe, hstack⟩ := List.forall_mem_cons.1 h
    refine List.forall_mem_cons.2 ⟨?_, hstack⟩
    cases frame with
    | list done => exact List.forall_mem_cons.2 ⟨hv, hframe⟩
    | object done key => exact List.forall_mem_cons.2 ⟨hv, hframe⟩

theorem close_isFine (h : ∀ frame ∈ stack, Frame.IsFine frame) : (close stack).IsFine := by
  cases stack with
  | nil => exact isDocument_leaf trivial (fun n same => by cases same) fun u part => part
  | cons frame stack =>
    obtain ⟨hframe, hstack⟩ := List.forall_mem_cons.1 h
    cases frame with
    | list done =>
      refine complete_isFine (isDocument_array fun v mem => ?_) hstack
      exact hframe v (List.mem_reverse.1 mem)
    | object done key =>
      refine complete_isFine (isDocument_object ?_ fun m mem => ?_) hstack
      · have none : (Table.keys ([] : Table Json)).Nodup := List.nodup_nil
        exact Table.keys_putAll_nodup none done.reverse
      · rcases Table.mem_of_mem_putAll mem with none | mem
        · cases none
        · exact hframe m (List.mem_reverse.1 mem)

theorem open_isFine {limit : Option Nat} {frame : Frame} {expecting : Expecting}
    (h : ∀ frame ∈ stack, Frame.IsFine frame) (hframe : Frame.IsFine frame)
    (hnext : open_ limit frame expecting stack = .ok next) : next.IsFine := by
  unfold open_ at hnext
  split at hnext
  · cases hnext
  · cases hnext
    exact List.forall_mem_cons.2 ⟨hframe, h⟩

theorem valueStep_isFine {limit : Option Nat} (h : ∀ frame ∈ stack, Frame.IsFine frame)
    (finite : t.IsFinite) (hnext : valueStep limit stack t = .ok next) : next.IsFine := by
  have leaf : ∀ v : Json, v.HasDistinctKeys → (∀ n, v ≠ .number n) → (∀ u, ¬ v.Part u) →
      (complete v stack).IsFine := fun v distinct noNumber noPart =>
    complete_isFine (isDocument_leaf distinct noNumber noPart) h
  unfold valueStep at hnext
  split at hnext
  · have empty : Frame.IsFine (.list []) := List.forall_mem_nil _
    exact open_isFine h empty hnext
  · have empty : Frame.IsFine (.object [] "") := List.forall_mem_nil _
    exact open_isFine h empty hnext
  · cases hnext
    exact leaf _ trivial (fun n same => by cases same) fun u part => part
  · cases hnext
    exact leaf _ trivial (fun n same => by cases same) fun u part => part
  · cases hnext
    exact complete_isFine (isDocument_number finite) h
  · cases hnext
  · cases hnext
    exact leaf _ trivial (fun n same => by cases same) fun u part => part
  all_goals cases hnext

theorem keyStep_isFine (h : ∀ frame ∈ stack, Frame.IsFine frame)
    (hnext : keyStep stack t = .ok next) : next.IsFine := by
  unfold keyStep at hnext
  split at hnext
  · split at hnext
    · cases hnext
      obtain ⟨hframe, hstack⟩ := List.forall_mem_cons.1 h
      exact List.forall_mem_cons.2 ⟨hframe, hstack⟩
    · cases hnext
  all_goals cases hnext

/-- **One token leaves only documents in what is open.** -/
theorem step_isFine {limit : Option Nat} {expecting : Expecting}
    (h : ∀ frame ∈ stack, Frame.IsFine frame) (finite : t.IsFinite)
    (hnext : step limit expecting stack t = .ok next) : next.IsFine := by
  unfold step at hnext
  split at hnext
  all_goals
    first
      | exact valueStep_isFine h finite hnext
      | exact keyStep_isFine h hnext
      | cases hnext
  all_goals
    first
      | exact close_isFine h
      | exact h

theorem run_isDocument {limit : Option Nat} {expecting : Expecting} {ts rest : List Token}
    {v : Json} (h : ∀ frame ∈ stack, Frame.IsFine frame) (finite : ∀ t ∈ ts, t.IsFinite)
    (hv : run limit expecting stack ts = .ok (v, rest)) : v.IsDocument := by
  induction ts generalizing expecting stack with
  | nil => cases hv
  | cons t ts ih =>
    obtain ⟨first, others⟩ := List.forall_mem_cons.1 finite
    rw [run] at hv
    split at hv
    · cases hv
    · rename_i done
      cases hv
      exact step_isFine h first done
    · rename_i more
      have hstack := step_isFine h first more
      exact ih hstack others hv

end Reader

/-- **A value that is read is a document.** -/
theorem isDocument_of_parse {limit : Option Nat} {text : String} {v : Json}
    (h : parse limit text = .ok v) : v.IsDocument := by
  have nothingOpen : ∀ frame ∈ ([] : List Frame), Reader.Frame.IsFine frame :=
    List.forall_mem_nil _
  unfold parse at h
  split at h
  · cases h
  · rename_i hv
    cases h
    exact Reader.run_isDocument nothingOpen (tokens_finite _) hv
  · cases h

end SchemaModel.Json
