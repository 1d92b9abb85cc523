import Mathlib
import SchemaModel.Proofs.Numerals
import SchemaModel.Proofs.Rounding

/-!
# Written numbers read back

Run over the text of a number, the reader ends in a numeral that stands for the number: the same
integer, or a decimal with the magnitude of the shortest one, which rounds to the number again.  So
numbers with one text are one number, and no integer is written like a number that is none.

* `placed` — the magnitude of digits from a place on;
* `spells_magnitudeText` — a written magnitude is read as that magnitude, in either notation;
* `Number.read?_text` — the text of a number is a numeral for the number;
* `Number.text_injective` — numbers with equal texts are equal.
-/

namespace SchemaModel.Json

/-! ### Magnitudes -/

/-- The magnitude of digits of which the first stands at a given power of ten. -/
def placed (ds : List Char) (k : ℤ) : ℚ :=
  (Nat.ofDigitChars 10 ds 0 : ℕ) * 10 ^ (k + 1 - ds.length)

theorem placed_append_zeros (ds : List Char) (z : ℕ) (k : ℤ) :
    placed (ds ++ List.replicate z '0') k = placed ds k := by
  have shift : k + 1 - (ds.length + z : ℕ) + z = k + 1 - ds.length := by
    push_cast
    ring
  rw [placed, Nat.ofDigitChars_append, Nat.ofDigitChars_replicate_zero, List.length_append,
    List.length_replicate, placed, ← shift, zpow_add₀ (by norm_num), zpow_natCast]
  push_cast
  ring

theorem placed_zeros_append (ds : List Char) (z : ℕ) (k : ℤ) :
    placed (List.replicate z '0' ++ ds) (k + z) = placed ds k := by
  have shift : k + z + 1 - (z + ds.length : ℕ) = k + 1 - ds.length := by
    push_cast
    ring
  rw [placed, Nat.ofDigitChars_append, Nat.ofDigitChars_replicate_zero, mul_zero,
    List.length_append, List.length_replicate, shift, placed]

/-- The digits of a coefficient stand for its magnitude. -/
theorem placed_toDigits (d : Decimal) :
    placed (Nat.toDigits 10 d.coefficient)
      (d.exponent + (Nat.toDigits 10 d.coefficient).length - 1) = d.magnitude := by
  rw [placed, Nat.ofDigitChars_ten_toDigits, Decimal.magnitude]
  congr 2
  ring

theorem Numeral.magnitude_ofParts (negative : Bool) (w f : List Char) (e : ℤ) :
    (Numeral.ofParts negative w f e).decimal.magnitude = placed (w ++ f) (w.length - 1 + e) := by
  have exponent : (if e < 0 then -(e.natAbs : ℤ) else e.natAbs) = e := by split_ifs <;> omega
  have place : e - (f.length : ℤ) = w.length - 1 + e + 1 - (w.length + f.length : ℕ) := by
    push_cast
    ring
  simp only [Numeral.decimal, Numeral.ofParts, Decimal.magnitude, decide_eq_true_eq, exponent,
    placed, List.length_append, place]

/-- The characters are read, after a sign, as a decimal of the given magnitude that is no
integer. -/
def Spells (cs : List Char) (r : ℚ) : Prop :=
  ∀ negative, ∃ w f e, Numeral.spelled? negative cs = some (Numeral.ofParts negative w f e) ∧
    placed (w ++ f) (w.length - 1 + e) = r

theorem spells_pointed {w f : List Char} (whole : IsWhole w) (nonempty : f ≠ [])
    (digits : ∀ c ∈ f, c.isDigit = true) :
    Spells (w ++ '.' :: f) (placed (w ++ f) (w.length - 1)) := by
  intro negative
  refine ⟨w, f, 0, Numeral.spelled?_eq_some (Numeral.run_pointed whole nonempty digits _) rfl, ?_⟩
  rw [add_zero]

open Binary64 (fixedText scientificText trimZeros magnitudeText)

theorem isDigit_of_mem_replicate_zero {z : ℕ} : ∀ c ∈ List.replicate z '0', c.isDigit = true := by
  intro c mem
  rw [List.eq_of_mem_replicate mem]
  rfl

/-- Digits with a point among them or, if none are left after it, with a zero there. -/
theorem spells_split {ds : List Char} (leading : IsLeading ds) {n : ℕ} (long : n < ds.length) :
    Spells
      (ds.take (n + 1) ++
        '.' :: (if (ds.drop (n + 1)).isEmpty then ['0'] else ds.drop (n + 1)))
      (placed ds n) := by
  have length : ((ds.take (n + 1)).length : ℤ) - 1 = n := by
    rw [List.length_take_of_le long]
    push_cast
    ring
  have whole : IsWhole (ds.take (n + 1)) := by
    rw [← List.take_append_drop (n + 1) ds] at leading
    refine .inr (leading.of_append fun none => ?_)
    rw [none, List.length_nil] at length
    omega
  split_ifs with none
  · have all : ds.take (n + 1) = ds := by
      rw [← List.take_append_drop (n + 1) ds, List.isEmpty_iff.1 none, List.append_nil,
        List.take_take, min_self]
    have zero : placed (ds.take (n + 1) ++ ['0']) n = placed ds n := by
      rw [all]
      exact placed_append_zeros ds 1 n
    rw [← zero, ← length]
    exact spells_pointed whole (List.cons_ne_nil _ _) (isDigit_of_mem_replicate_zero (z := 1))
  · have read := spells_pointed whole (by simpa using none)
      fun c mem => leading.isDigit c (List.mem_of_mem_drop mem)
    rwa [List.take_append_drop, length] at read

/-- Fixed notation pads with zeros that do not change the magnitude. -/
theorem spells_fixedText {ds : List Char} (leading : IsLeading ds) (k : ℤ) :
    Spells (fixedText ds k) (placed ds k) := by
  rw [fixedText]
  split_ifs with sign
  · obtain ⟨n, rfl⟩ := Int.eq_ofNat_of_zero_le sign
    rw [Int.toNat_natCast, ← placed_append_zeros ds (n + 1 - ds.length)]
    refine spells_split (leading.append isDigit_of_mem_replicate_zero) ?_
    rw [List.length_append, List.length_replicate]
    omega
  · obtain ⟨n, negated⟩ : ∃ n : ℕ, k = -(n + 1) := ⟨(-k).toNat - 1, by omega⟩
    have zeros : (-k).toNat - 1 = n := by omega
    have nonempty : List.replicate n '0' ++ ds ≠ [] := by
      obtain ⟨c, cs, rfl, -⟩ := leading.first
      exact List.append_ne_nil_of_right_ne_nil _ (List.cons_ne_nil c cs)
    have read : Spells ('0' :: '.' :: (List.replicate n '0' ++ ds)) _ :=
      spells_pointed (.inl rfl) nonempty
        (List.forall_mem_append.2 ⟨isDigit_of_mem_replicate_zero, leading.isDigit⟩)
    have shifted : placed (['0'] ++ (List.replicate n '0' ++ ds)) ((['0'].length : ℤ) - 1) =
        placed ds k := by
      have place : (['0'].length : ℤ) - 1 = k + (n + 1 : ℕ) := by
        rw [negated, List.length_singleton]
        push_cast
        ring
      rw [place, ← placed_zeros_append ds (n + 1) k, List.replicate_succ]
      rfl
    rw [shifted] at read
    rw [zeros]
    exact read

/-- Scientific notation has one digit before the point. -/
theorem spells_scientificText {ds : List Char} (leading : IsLeading ds) (k : ℤ) :
    Spells (scientificText ds k) (placed ds k) := by
  intro negative
  obtain ⟨c, cs, rfl, nonzero⟩ := leading.first
  obtain ⟨digit, rest⟩ := List.forall_mem_cons.1 leading.isDigit
  have whole : IsWhole [c] := .inr ⟨by simpa using digit, c, [], rfl, nonzero⟩
  refine ⟨[c], cs, k,
    Numeral.spelled?_eq_some (Numeral.run_scientific whole rest k negative) rfl, ?_⟩
  simp

/-- Only zeros are trimmed, and never the first digit. -/
theorem trimZeros_spec {ds : List Char} (leading : IsLeading ds) :
    IsLeading (trimZeros ds) ∧ ∃ z, ds = trimZeros ds ++ List.replicate z '0' := by
  set kept := (ds.reverse.dropWhile (· == '0')).reverse with kept_def
  have zeros : ds.reverse.takeWhile (· == '0') =
      List.replicate (ds.reverse.takeWhile (· == '0')).length '0' :=
    List.eq_replicate_of_mem fun d mem => by simpa using List.mem_takeWhile_imp mem
  have split : ds = kept ++ List.replicate (ds.reverse.takeWhile (· == '0')).length '0' := by
    rw [kept_def, ← List.reverse_replicate, ← zeros, ← List.reverse_append,
      List.takeWhile_append_dropWhile, List.reverse_reverse]
  have nonempty : kept ≠ [] := by
    intro empty
    obtain ⟨c, cs, shape, nonzero⟩ := leading.first
    rw [empty, List.nil_append] at split
    exact nonzero (List.eq_of_mem_replicate (split ▸ shape ▸ List.mem_cons_self))
  have trimmed : trimZeros ds = kept := by
    obtain ⟨c, cs, shape⟩ := List.exists_cons_of_ne_nil nonempty
    rw [trimZeros, ← kept_def, shape]
  rw [trimmed]
  exact ⟨(split ▸ leading).of_append nonempty, _, split⟩

/-- **A written magnitude is read as that magnitude.** -/
theorem spells_magnitudeText (d : Decimal) : Spells (magnitudeText d) d.magnitude := by
  simp only [magnitudeText]
  split_ifs with zero
  · have read := spells_pointed (w := ['0']) (f := ['0']) (.inl rfl) (List.cons_ne_nil _ _)
      (isDigit_of_mem_replicate_zero (z := 1))
    have none : placed (['0'] ++ ['0']) ((['0'].length : ℤ) - 1) = d.magnitude := by
      simp [placed, Decimal.magnitude, zero, Nat.ofDigitChars]
    rwa [none] at read
  -- both notations write the trimmed digits from the same place on
  all_goals
    obtain ⟨leading, z, trimmed⟩ := trimZeros_spec (isLeading_toDigits (Nat.pos_of_ne_zero zero))
    have magnitude : placed (trimZeros (Nat.toDigits 10 d.coefficient))
        (d.exponent + (Nat.toDigits 10 d.coefficient).length - 1) = d.magnitude := by
      rw [← placed_append_zeros _ z, ← trimmed, placed_toDigits]
    rw [← magnitude]
  · exact spells_fixedText leading _
  · exact spells_scientificText leading _

/-! ### Numbers -/

namespace Number

theorem toList_text_int (i : ℤ) :
    (Number.int i).text.toList =
      Numeral.sign (decide (i < 0)) ++ Nat.toDigits 10 i.natAbs := by
  cases i with
  | ofNat n =>
    have sign : ¬ (Int.ofNat n < 0) := by simp
    rw [decide_eq_false sign]
    exact Nat.toList_repr
  | negSucc n =>
    rw [decide_eq_true (Int.negSucc_lt_zero n)]
    change ("-" ++ (n + 1).repr).toList = _
    rw [String.toList_append, Nat.toList_repr]
    rfl

/-- **The text of a number is a numeral for that number.** -/
theorem read?_text {n : Number} (finite : n.isFinite = true) :
    ∃ m, Numeral.read? n.text.toList = some m ∧ m.number = n := by
  cases n with
  | int i =>
    refine ⟨_, toList_text_int i ▸ Numeral.read?_eq_spelled? (spelled?_toDigits _ _), ?_⟩
    have nonzero : ¬ (i < 0 ∧ i.natAbs = 0) := by omega
    simp only [Numeral.number, decide_eq_true_eq, true_and, if_pos nonzero]
    congr 1
    split_ifs <;> omega
  | float x =>
    replace finite : x.isFinite = true := finite
    have text : (Number.float x).text.toList =
        Numeral.sign x.negative ++ magnitudeText x.shortest := by
      rw [Number.text, Binary64.text, if_pos finite, String.toList_ofList, Numeral.sign]
    obtain ⟨w, f, e, spelled, magnitude⟩ := spells_magnitudeText x.shortest x.negative
    obtain ⟨reads, sign⟩ := Binary64.nearest_shortest finite
    refine ⟨_, text ▸ Numeral.read?_eq_spelled? spelled, ?_⟩
    -- the numeral and the shortest decimal have one magnitude, so they round alike
    have code : (Numeral.ofParts x.negative w f e).decimal.nearestCode =
        x.shortest.nearestCode := by
      rw [Decimal.nearestCode_eq, Decimal.nearestCode_eq, Numeral.magnitude_ofParts, magnitude]
    change Number.float (Binary64.ofCode x.negative _) = _
    rw [code, ← sign, ← Decimal.nearest, reads]

/-- **Finite numbers with equal texts are equal.** -/
theorem text_injective {n m : Number} (finite : n.isFinite = true) (finite' : m.isFinite = true)
    (same : n.text = m.text) : n = m := by
  obtain ⟨numeral, read, stands⟩ := read?_text finite
  obtain ⟨numeral', read', stands'⟩ := read?_text finite'
  rw [same, read'] at read
  cases read
  exact stands.symm.trans stands'

end Number

end SchemaModel.Json
