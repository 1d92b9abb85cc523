import SchemaModel.MetaSchema.Violation
import SchemaModel.Proofs.Outcome
import SchemaModel.Schema.OfJson

/-!
# Strings and arrays of strings

Most slots of a node hold a string or an array of strings.  How such a value reads and what the
grammar asks of it are both questions about the strings in it.

* `Decode.strings_eq_ok`, `Schema.typeExpr_eq_ok` — which values read, and as what;
* `MetaSchema.typeViolations_eq_nil`, `MetaSchema.enumViolations_eq_nil`,
  `MetaSchema.nameListViolations_eq_nil` — which values break no rule.
-/

namespace SchemaModel

open Outcome

/-- A string. -/
def Json.IsText (v : Json) : Prop := ∃ s, v = .string s

/-- A non-empty string. -/
def Json.IsNonEmptyText (v : Json) : Prop := ∃ s, v = .string s ∧ s ≠ ""

/-- Values that are all strings are those of a list of strings. -/
theorem Json.forall_string_iff {P : String → Prop} {items : List Json} :
    (∀ v ∈ items, ∃ s, v = .string s ∧ P s) ↔
      ∃ ss : List String, items = ss.map .string ∧ ∀ s ∈ ss, P s := by
  constructor
  · intro each
    induction items with
    | nil => exact ⟨[], rfl, List.forall_mem_nil P⟩
    | cons v rest ih =>
      obtain ⟨s, rfl, own⟩ := each v List.mem_cons_self
      obtain ⟨ss, rfl, others⟩ := ih fun u mem => each u (List.mem_cons_of_mem _ mem)
      exact ⟨s :: ss, rfl, List.forall_mem_cons.2 ⟨own, others⟩⟩
  · rintro ⟨ss, rfl, each⟩
    exact List.forall_mem_map.2 fun s mem => ⟨s, rfl, each s mem⟩

theorem Json.forall_isText_iff {items : List Json} :
    (∀ v ∈ items, v.IsText) ↔ ∃ ss : List String, items = ss.map .string := by
  have all := @Json.forall_string_iff (fun _ => True) items
  simp only [and_true, implies_true] at all
  exact all

/-! ### Values that read -/

namespace Decode

theorem string_eq_ok {v : Json} {s : String} : string v = .ok s ↔ v = .string s := by
  cases v <;> simp [string]

theorem stringsFrom_eq_ok {i : Nat} {items : List Json} {ss : List String} :
    stringsFrom i items = .ok ss ↔ items = ss.map .string := by
  induction items generalizing i ss with
  | nil => cases ss <;> simp [stringsFrom]
  | cons v rest ih =>
    rw [stringsFrom]
    constructor
    · intro h
      cases hv : at_ (.index i) (string v) with
      | error e =>
        rw [hv] at h
        cases h
      | ok s =>
        rw [hv] at h
        obtain ⟨others, hothers, rfl⟩ := map_eq_ok.1 h
        rw [string_eq_ok.1 (mapError_eq_ok.1 hv), ih.1 hothers, List.map_cons]
    · intro h
      cases ss with
      | nil => cases h
      | cons s others =>
        obtain ⟨rfl, rfl⟩ := List.cons.inj h
        exact map_eq_ok.2 ⟨others, ih.2 rfl, rfl⟩

/-- Arrays of strings read as lists of strings, and no other values do. -/
theorem strings_eq_ok {v : Json} {ss : List String} :
    strings v = .ok ss ↔ v = .array (ss.map .string) := by
  cases v <;> simp [strings, stringsFrom_eq_ok]

variable {α : Type} {read : Json → Except DecodeError α} {v : Json}

theorem optional_eq_none : optional read v = .ok none ↔ v = .null := by
  cases v <;> simp [optional, map_eq_ok]

theorem optional_eq_some {x : α} :
    optional read v = .ok (some x) ↔ v ≠ .null ∧ read v = .ok x := by
  cases v <;> simp [optional, map_eq_ok]

end Decode

/-- A type is read from a string as a name and from strings as a choice. -/
theorem Schema.typeExpr_eq_ok {v : Json} {t : TypeExpr} :
    typeExpr v = .ok t ↔ (∃ n, v = .string n ∧ t = .name n) ∨
      ∃ names : List String, v = .array (names.map .string) ∧ t = .choice names := by
  constructor
  · intro h
    unfold typeExpr at h
    split at h
    · rename_i n
      cases h
      exact .inl ⟨n, rfl, rfl⟩
    · split at h
      · rename_i names hnames
        cases h
        exact .inr ⟨names, Decode.strings_eq_ok.1 hnames, rfl⟩
      · cases h
  · rintro (⟨n, rfl, rfl⟩ | ⟨names, rfl, rfl⟩)
    · rfl
    · rw [typeExpr, Decode.strings_eq_ok.2 rfl]
      exact fun n same => by cases same

/-! ### Values that break no rule -/

/-- Strings are the same only if they are equal, however zeros are told apart. -/
theorem Json.repeats_strings {signedZeros : Bool} {ss : List String} :
    repeats signedZeros (ss.map .string) = false ↔ ss.Nodup := by
  induction ss with
  | nil => simp [repeats]
  | cons s rest ih =>
    rw [List.map_cons, repeats, Bool.or_eq_false_iff, ih, List.nodup_cons, List.any_eq_false,
      List.forall_mem_map]
    refine and_congr_left fun _ => ?_
    constructor
    · exact fun apart mem => apart s mem (beq_self_eq_true s)
    · exact fun fresh t mem same => fresh (beq_iff_eq.1 same ▸ mem)

namespace MetaSchema

theorem textViolations_eq_nil {v : Json} : textViolations v = [] ↔ v.IsText := by
  cases v <;> simp [textViolations, Json.IsText]

theorem nameViolations_eq_nil {v : Json} : nameViolations v = [] ↔ v.IsNonEmptyText := by
  cases v <;> simp [nameViolations, Json.IsNonEmptyText]

theorem isName_eq_true {v : Json} : isName v = true ↔ v.IsNonEmptyText := by
  cases v <;> simp [isName, Json.IsNonEmptyText]

theorem flatMap_textViolations_eq_nil {items : List Json} :
    items.flatMap textViolations = [] ↔ ∃ ss : List String, items = ss.map .string := by
  rw [List.flatMap_eq_nil_iff, ← Json.forall_isText_iff]
  simp only [textViolations_eq_nil]

/-- A type is a non-empty string or a non-empty array of non-empty strings. -/
theorem typeViolations_eq_nil {v : Json} :
    typeViolations v = [] ↔ v.IsNonEmptyText ∨
      ∃ names : List String, v = .array (names.map .string) ∧ names ≠ [] ∧ ∀ n ∈ names, n ≠ "" := by
  have fine : typeViolations v = [] ↔ isTypeExpr v = true := by
    cases hv : isTypeExpr v <;> simp [typeViolations, hv]
  rw [fine]
  cases v with
  | array items =>
    have names : (∀ u ∈ items, isName u = true) ↔
        ∃ ss : List String, items = ss.map .string ∧ ∀ s ∈ ss, s ≠ "" := by
      simp only [isName_eq_true]
      exact Json.forall_string_iff
    rw [isTypeExpr, Bool.and_eq_true, List.all_eq_true, names]
    constructor
    · rintro ⟨nonempty, ss, rfl, each⟩
      exact .inr ⟨ss, rfl, by simpa using nonempty, each⟩
    · rintro (⟨n, same, -⟩ | ⟨ss, same, nonempty, each⟩)
      · cases same
      · obtain rfl := Json.array.inj same
        exact ⟨by simpa using nonempty, ss, rfl, each⟩
  | _ => simp [isTypeExpr, isName_eq_true, Json.IsNonEmptyText]

/-- An enumeration is a non-empty array of strings. -/
theorem enumViolations_eq_nil {v : Json} :
    enumViolations v = [] ↔ ∃ ss : List String, v = .array (ss.map .string) ∧ ss ≠ [] := by
  cases v with
  | array items =>
    rw [enumViolations]
    cases items with
    | nil => simp
    | cons first rest =>
      rw [if_neg (by simp), flatMap_textViolations_eq_nil]
      constructor
      · rintro ⟨ss, same⟩
        exact ⟨ss, congrArg Json.array same, fun none => by rw [none] at same; cases same⟩
      · rintro ⟨ss, same, -⟩
        exact ⟨ss, Json.array.inj same⟩
  | _ => simp [enumViolations]

/-- A list of names is an array of different strings. -/
theorem nameListViolations_eq_nil {v : Json} :
    nameListViolations v = [] ↔ ∃ ss : List String, v = .array (ss.map .string) ∧ ss.Nodup := by
  cases v with
  | array items =>
    have distinct : (if Json.anySame items then [Violation.repeatedElements items] else []) = [] ↔
        Json.anySame items = false := by
      cases Json.anySame items <;> simp
    rw [nameListViolations, List.append_eq_nil_iff, flatMap_textViolations_eq_nil, distinct]
    constructor
    · rintro ⟨apart, ss, rfl⟩
      exact ⟨ss, rfl, Json.repeats_strings.1 apart⟩
    · rintro ⟨ss, same, nodup⟩
      obtain rfl := Json.array.inj same
      exact ⟨Json.repeats_strings.2 nodup, ss, rfl⟩
  | _ => simp [nameListViolations]

end MetaSchema

end SchemaModel
