import Mathlib
import SchemaModel.Binary64.Shortest

/-!
# Rounding depends on the value only

A decimal and a 64-bit number both stand for a rational magnitude.  The search for the nearest
number works on integers and sets aside what is far too large or far too small, but what it finds
is a function of the magnitude: of two decimals for one rational either both read as a number or
neither does.  So a finite number is found again from its exact expansion, and from the shortest
decimal, which the search stops at only if it reads back.

* `Decimal.magnitude`, `Binary64.magnitude` — the rationals stood for;
* `Binary64.codeOf` — the magnitude field nearest to a rational;
* `Binary64.codeOfRatio_eq` — the integer quotient rounds the ratio;
* `Decimal.nearestCode_eq` — a decimal rounds as its magnitude does, clamped or not;
* `Binary64.codeOf_magnitude` — a finite number is nearest to itself;
* `Binary64.nearest_shortest` — the shortest decimal reads back.
-/

namespace SchemaModel

/-- The magnitude of a decimal. -/
def Decimal.magnitude (d : Decimal) : ℚ := d.coefficient * 10 ^ d.exponent

/-- The magnitude of a finite number. -/
def Binary64.magnitude (x : Binary64) : ℚ := x.significand * 2 ^ x.exponent

/-! ### Rounding to an integer -/

/-- The integer nearest to a magnitude, an exact half going to the even one. -/
def roundHalfEven (r : ℚ) : ℕ :=
  let low := ⌊r⌋₊
  if r - low < 1 / 2 then low
  else if 1 / 2 < r - low then low + 1
  else low + low % 2

theorem divHalfEven_eq (num : ℕ) {den : ℕ} (pos : 0 < den) :
    divHalfEven num den = roundHalfEven (num / den) := by
  have den_pos : (0 : ℚ) < den := by exact_mod_cast pos
  have split : (num : ℚ) = den * (num / den : ℕ) + (num % den : ℕ) := by
    exact_mod_cast (Nat.div_add_mod num den).symm
  have rest : (num / den : ℚ) - (num / den : ℕ) = (num % den : ℕ) / den := by
    rw [eq_div_iff den_pos.ne', sub_mul, div_mul_cancel₀ _ den_pos.ne']
    linarith
  have below : (num % den : ℕ) / (den : ℚ) < 1 / 2 ↔ 2 * (num % den) < den := by
    rw [div_lt_div_iff₀ den_pos two_pos, one_mul, mul_comm]
    exact_mod_cast Iff.rfl
  have above : 1 / 2 < (num % den : ℕ) / (den : ℚ) ↔ den < 2 * (num % den) := by
    rw [div_lt_div_iff₀ two_pos den_pos, one_mul, mul_comm]
    exact_mod_cast Iff.rfl
  simp only [divHalfEven, roundHalfEven, Nat.floor_div_eq_div, rest, below, above]

theorem roundHalfEven_natCast (n : ℕ) : roundHalfEven n = n := by
  simp [roundHalfEven]

theorem le_roundHalfEven {n : ℕ} {r : ℚ} (h : (n : ℚ) ≤ r) : n ≤ roundHalfEven r := by
  have low : n ≤ ⌊r⌋₊ := Nat.le_floor h
  simp only [roundHalfEven]
  split_ifs <;> omega

theorem roundHalfEven_eq_zero {r : ℚ} (h : r < 1 / 2) : roundHalfEven r = 0 := by
  have low : ⌊r⌋₊ = 0 := Nat.floor_eq_zero.2 (by linarith)
  simp only [roundHalfEven, low, Nat.cast_zero, sub_zero, if_pos h]

namespace Binary64

/-! ### The nearest number to a rational -/

/-- The power of two that the significand of the nearest number counts. -/
def scaleOf (r : ℚ) : ℤ := max (Int.log 2 r - 52) (-1074)

/-- The magnitude field of the number nearest to a magnitude. -/
def codeOf (r : ℚ) : ℕ :=
  if r = 0 then 0
  else min ((scaleOf r + 1074).toNat * 2 ^ 52 + roundHalfEven (r / 2 ^ scaleOf r)) infinityCode

theorem two_zpow_pos (e : ℤ) : (0 : ℚ) < 2 ^ e := zpow_pos two_pos e

/-- The binary logarithm lies between two powers of two. -/
theorem log_eq {r : ℚ} {e : ℤ} (low : 2 ^ e ≤ r) (high : r < 2 ^ (e + 1)) : Int.log 2 r = e := by
  have pos : 0 < r := (two_zpow_pos e).trans_le low
  have lower := (Int.zpow_le_iff_le_log (b := 2) one_lt_two pos).1 (by exact_mod_cast low)
  have upper := (Int.lt_zpow_iff_log_lt (b := 2) one_lt_two pos).1 (by exact_mod_cast high)
  omega

/-- Whether a power of two is below a ratio can be told on integers. -/
theorem two_zpow_le_ratio (num : ℕ) {den : ℕ} (pos : 0 < den) (e : ℤ) :
    (if 0 ≤ e then den * Nat.pow 2 e.toNat ≤ num else den ≤ num * Nat.pow 2 (-e).toNat) ↔
      (2 : ℚ) ^ e ≤ num / den := by
  have den_pos : (0 : ℚ) < den := by exact_mod_cast pos
  rw [le_div_iff₀ den_pos]
  rcases le_or_gt 0 e with sign | sign
  · obtain ⟨n, rfl⟩ := Int.eq_ofNat_of_zero_le sign
    simp only [sign, if_true, Int.toNat_natCast, Nat.pow_eq, zpow_natCast, mul_comm den]
    exact_mod_cast Iff.rfl
  · obtain ⟨n, rfl⟩ := Int.exists_eq_neg_ofNat sign.le
    simp only [not_le.2 sign, if_false, neg_neg, Int.toNat_natCast, Nat.pow_eq, zpow_neg,
      zpow_natCast]
    rw [inv_mul_le_iff₀ (by positivity), mul_comm]
    exact_mod_cast Iff.rfl

theorem floorLog2_eq {num den : ℕ} (num_pos : 0 < num) (den_pos : 0 < den) :
    floorLog2 num den = Int.log 2 (num / den : ℚ) := by
  have den_pos' : (0 : ℚ) < den := by exact_mod_cast den_pos
  have num_low : (2 : ℚ) ^ num.log2 ≤ num := by exact_mod_cast Nat.log2_self_le num_pos.ne'
  have num_high : (num : ℚ) < 2 ^ (num.log2 + 1) := by exact_mod_cast Nat.lt_log2_self
  have den_low : (2 : ℚ) ^ den.log2 ≤ den := by exact_mod_cast Nat.log2_self_le den_pos.ne'
  have den_high : (den : ℚ) < 2 ^ (den.log2 + 1) := by exact_mod_cast Nat.lt_log2_self
  set guess : ℤ := num.log2 - den.log2 with guess_def
  -- the guess is the logarithm or one above it, so one comparison settles which
  have low : (2 : ℚ) ^ (guess - 1) ≤ num / den := by
    rw [le_div_iff₀ den_pos']
    calc (2 : ℚ) ^ (guess - 1) * den ≤ 2 ^ (guess - 1) * 2 ^ (den.log2 + 1) := by gcongr
      _ = 2 ^ num.log2 := by
        rw [← zpow_natCast, ← zpow_natCast, ← zpow_add₀ two_ne_zero]
        congr 1
        push_cast
        omega
      _ ≤ num := num_low
  have high : (num / den : ℚ) < 2 ^ (guess + 1) := by
    rw [div_lt_iff₀ den_pos']
    calc (num : ℚ) < 2 ^ (num.log2 + 1) := num_high
      _ = 2 ^ (guess + 1) * 2 ^ den.log2 := by
        rw [← zpow_natCast, ← zpow_natCast, ← zpow_add₀ two_ne_zero]
        congr 1
        push_cast
        omega
      _ ≤ 2 ^ (guess + 1) * den := by gcongr
  have reached := two_zpow_le_ratio num den_pos guess
  simp only [floorLog2, ← guess_def, reached]
  split_ifs with h
  · exact (log_eq h high).symm
  · exact (log_eq low (by simpa using h)).symm

/-- **The quotient of integers rounds the ratio.** -/
theorem codeOfRatio_eq {num den : ℕ} (num_pos : 0 < num) (den_pos : 0 < den) :
    codeOfRatio num den = codeOf (num / den) := by
  have ratio_pos : (0 : ℚ) < num / den := by positivity
  have significand :
      (if 0 ≤ scaleOf (num / den) then divHalfEven num (den * Nat.pow 2 (scaleOf (num / den)).toNat)
        else divHalfEven (num * Nat.pow 2 (-scaleOf (num / den)).toNat) den) =
      roundHalfEven (num / den / 2 ^ scaleOf (num / den)) := by
    generalize scaleOf (num / den) = scale
    rcases le_or_gt 0 scale with sign | sign
    · obtain ⟨n, rfl⟩ := Int.eq_ofNat_of_zero_le sign
      rw [if_pos sign, divHalfEven_eq _ (by simp [den_pos])]
      simp [div_div]
    · obtain ⟨n, rfl⟩ := Int.exists_eq_neg_ofNat sign.le
      rw [if_neg (not_le.2 sign), divHalfEven_eq _ den_pos]
      congr 1
      simp [div_mul_eq_mul_div]
  rw [codeOf, if_neg ratio_pos.ne', ← significand, codeOfRatio, floorLog2_eq num_pos den_pos]
  rfl

/-! ### The clamps -/

/-- From `2 ^ 1024` on, every magnitude rounds to infinity. -/
theorem codeOf_eq_infinityCode {r : ℚ} (h : (2 : ℚ) ^ (1024 : ℤ) ≤ r) :
    codeOf r = infinityCode := by
  have pos : 0 < r := (two_zpow_pos _).trans_le h
  have log : 1024 ≤ Int.log 2 r :=
    (Int.zpow_le_iff_le_log (b := 2) one_lt_two pos).1 (by exact_mod_cast h)
  have scale : scaleOf r = Int.log 2 r - 52 := max_eq_left (by omega)
  have significand : 2 ^ 52 ≤ roundHalfEven (r / 2 ^ scaleOf r) := by
    apply le_roundHalfEven
    rw [le_div_iff₀ (two_zpow_pos _), scale]
    calc ((2 ^ 52 : ℕ) : ℚ) * 2 ^ (Int.log 2 r - 52) = 2 ^ Int.log 2 r := by
          rw [show ((2 ^ 52 : ℕ) : ℚ) = 2 ^ (52 : ℤ) by norm_num, ← zpow_add₀ two_ne_zero]
          congr 1
          omega
      _ ≤ r := by exact_mod_cast Int.zpow_log_le_self (b := 2) one_lt_two pos
  have offset : 2046 ≤ (scaleOf r + 1074).toNat := by omega
  rw [codeOf, if_neg pos.ne', min_eq_right]
  simp only [infinityCode, Nat.pow_eq]
  omega

/-- Magnitudes below `2 ^ -1075` round to zero. -/
theorem codeOf_eq_zero {r : ℚ} (pos : 0 < r) (h : r < (2 : ℚ) ^ (-1075 : ℤ)) : codeOf r = 0 := by
  have log : Int.log 2 r < -1075 :=
    (Int.lt_zpow_iff_log_lt (b := 2) one_lt_two pos).1 (by exact_mod_cast h)
  have scale : scaleOf r = -1074 := max_eq_right (by omega)
  have significand : roundHalfEven (r / 2 ^ scaleOf r) = 0 := by
    apply roundHalfEven_eq_zero
    rw [div_lt_iff₀ (two_zpow_pos _), scale]
    calc r < 2 ^ (-1075 : ℤ) := h
      _ = 1 / 2 * 2 ^ (-1074 : ℤ) := by
        rw [show (-1075 : ℤ) = -1 + -1074 by norm_num, zpow_add₀ two_ne_zero]
        norm_num
  rw [codeOf, if_neg pos.ne', significand, scale]
  rfl

end Binary64

namespace Decimal

theorem ten_zpow_pos (e : ℤ) : (0 : ℚ) < 10 ^ e := zpow_pos (by norm_num) e

theorem width_pos (d : Decimal) : 0 < d.width := Nat.length_toDigits_pos

/-- The number of digits bounds the coefficient from above and below. -/
theorem coefficient_bounds {d : Decimal} (nonzero : d.coefficient ≠ 0) :
    10 ^ (d.width - 1) ≤ d.coefficient ∧ d.coefficient < 10 ^ d.width := by
  have pos := d.width_pos
  refine ⟨?_, (Nat.length_toDigits_le_iff (by omega) pos).1 le_rfl⟩
  by_contra below
  rcases Nat.eq_zero_or_pos (d.width - 1) with one | more
  · rw [one] at below
    omega
  · have shorter := (Nat.length_toDigits_le_iff (by omega) more).2 (not_le.1 below)
    have : d.width ≤ d.width - 1 := shorter
    omega

/-- The magnitude lies between the powers of ten at the place of the first digit. -/
theorem magnitude_bounds {d : Decimal} (nonzero : d.coefficient ≠ 0) :
    10 ^ (d.exponent + d.width - 1) ≤ d.magnitude ∧ d.magnitude < 10 ^ (d.exponent + d.width) := by
  obtain ⟨low, high⟩ := coefficient_bounds nonzero
  have pos := d.width_pos
  have first : d.exponent + d.width - 1 = (d.width - 1 : ℕ) + d.exponent := by omega
  constructor
  · rw [first, zpow_add₀ (by norm_num), zpow_natCast]
    exact mul_le_mul_of_nonneg_right (by exact_mod_cast low) (ten_zpow_pos _).le
  · rw [add_comm, zpow_add₀ (by norm_num), zpow_natCast]
    exact mul_lt_mul_of_pos_right (by exact_mod_cast high) (ten_zpow_pos _)

/-- **A decimal rounds as its magnitude does**: past the clamps nothing is lost. -/
theorem nearestCode_eq (d : Decimal) : d.nearestCode = Binary64.codeOf d.magnitude := by
  rcases Nat.eq_zero_or_pos d.coefficient with zero | positive
  · simp [nearestCode, magnitude, zero, Binary64.codeOf]
  obtain ⟨low, high⟩ := magnitude_bounds positive.ne'
  have pos : 0 < d.magnitude := (ten_zpow_pos _).trans_le low
  rw [nearestCode, if_neg positive.ne']
  split_ifs with large small whole
  · have clamp : 2 ^ 1024 ≤ 10 ^ 310 := by decide +kernel
    refine (Binary64.codeOf_eq_infinityCode (le_trans ?_ low)).symm
    calc (2 : ℚ) ^ (1024 : ℤ) ≤ 10 ^ (310 : ℤ) := by exact_mod_cast clamp
      _ ≤ 10 ^ (d.exponent + d.width - 1) := zpow_le_zpow_right₀ (by norm_num) (by omega)
  · have clamp : 2 ^ 1075 ≤ 10 ^ 331 := by decide +kernel
    refine (Binary64.codeOf_eq_zero pos (lt_of_lt_of_le high ?_)).symm
    calc (10 : ℚ) ^ (d.exponent + d.width) ≤ 10 ^ (-331 : ℤ) :=
          zpow_le_zpow_right₀ (by norm_num) (by omega)
      _ ≤ 2 ^ (-1075 : ℤ) := by
        rw [zpow_neg, zpow_neg]
        exact inv_anti₀ (Binary64.two_zpow_pos 1075) (by exact_mod_cast clamp)
  · obtain ⟨n, exponent⟩ := Int.eq_ofNat_of_zero_le whole
    rw [Binary64.codeOfRatio_eq (by simp [positive]) one_pos, magnitude, exponent]
    simp
  · obtain ⟨n, exponent⟩ := Int.exists_eq_neg_ofNat (not_le.1 whole).le
    rw [Binary64.codeOfRatio_eq positive (by simp), magnitude, exponent]
    simp [div_eq_mul_inv]

end Decimal

namespace Binary64

/-! ### Finite numbers are read back -/

theorem ofCode_code (x : Binary64) : ofCode x.negative x.code = x := by
  have small := x.bits.toNat_lt
  have sum : x.code + (if x.negative then Nat.pow 2 63 else 0) = x.bits.toNat := by
    simp only [code, negative, Nat.pow_eq, decide_eq_true_eq]
    split_ifs <;> omega
  rw [ofCode, sum, UInt64.ofNat_toNat]

/-- A finite number is given by a significand below `2 ^ 53`, which fills its 53 bits unless the
exponent is the least one. -/
theorem significand_exponent (x : Binary64) :
    x.significand < 2 ^ 53 ∧ (2 ^ 52 ≤ x.significand ∨ x.exponent = -1074) ∧
      (x.exponent + 1074).toNat * 2 ^ 52 + x.significand = x.code := by
  simp only [significand, exponent, binade, Nat.pow_eq]
  omega

/-- **A finite number is the nearest one to its own magnitude.** -/
theorem codeOf_magnitude {x : Binary64} (finite : x.isFinite = true) :
    codeOf x.magnitude = x.code := by
  obtain ⟨below, full, code⟩ := x.significand_exponent
  have inRange : x.code ≤ infinityCode := (of_decide_eq_true finite).le
  rcases Nat.eq_zero_or_pos x.significand with zero | positive
  · have least : x.exponent = -1074 := full.resolve_left (by omega)
    rw [zero, least] at code
    simpa [codeOf, magnitude, zero] using code
  have pos : 0 < x.magnitude := mul_pos (by exact_mod_cast positive) (two_zpow_pos _)
  have high : Int.log 2 x.magnitude < 53 + x.exponent := by
    refine (Int.lt_zpow_iff_log_lt (b := 2) one_lt_two pos).1 ?_
    push_cast
    rw [zpow_add₀ two_ne_zero]
    exact mul_lt_mul_of_pos_right (by exact_mod_cast below) (two_zpow_pos _)
  have low : 2 ^ 52 ≤ x.significand → 52 + x.exponent ≤ Int.log 2 x.magnitude := by
    intro filled
    refine (Int.zpow_le_iff_le_log (b := 2) one_lt_two pos).1 ?_
    push_cast
    rw [zpow_add₀ two_ne_zero]
    exact mul_le_mul_of_nonneg_right (by exact_mod_cast filled) (two_zpow_pos _).le
  have scale : scaleOf x.magnitude = x.exponent := by
    rcases full with filled | least
    · have := low filled
      have : -1074 ≤ x.exponent := by simp only [exponent]; omega
      rw [scaleOf]
      omega
    · rw [scaleOf]
      omega
  have significand : x.magnitude / 2 ^ x.exponent = x.significand :=
    mul_div_cancel_right₀ _ (two_zpow_pos _).ne'
  rw [codeOf, if_neg pos.ne', scale, significand, roundHalfEven_natCast, code,
    min_eq_left inRange]

theorem magnitude_exactDecimal (x : Binary64) : x.exactDecimal.magnitude = x.magnitude := by
  rw [exactDecimal, magnitude]
  split_ifs with sign
  · obtain ⟨n, exponent⟩ := Int.eq_ofNat_of_zero_le sign
    simp [Decimal.magnitude, exponent]
  · obtain ⟨n, exponent⟩ := Int.exists_eq_neg_ofNat (not_le.1 sign).le
    have powers : (10 : ℚ) ^ n = 5 ^ n * 2 ^ n := by rw [← mul_pow]; norm_num
    simp only [Decimal.magnitude, exponent, neg_neg, Int.toNat_natCast, Nat.pow_eq, zpow_neg,
      zpow_natCast, powers]
    push_cast
    field_simp

theorem negative_exactDecimal (x : Binary64) : x.exactDecimal.negative = x.negative := by
  rw [exactDecimal]
  split_ifs <;> rfl

theorem nearest_exactDecimal {x : Binary64} (finite : x.isFinite = true) :
    x.exactDecimal.nearest = x := by
  rw [Decimal.nearest, Decimal.nearestCode_eq, magnitude_exactDecimal, codeOf_magnitude finite,
    negative_exactDecimal, ofCode_code]

end Binary64

theorem Decimal.cutReading?_eq_some {d c : Decimal} {x : Binary64} {dropped : ℕ}
    (h : d.cutReading? x dropped = some c) : c.nearest = x ∧ c.negative = d.negative := by
  have reads := List.find?_some h
  have cut := List.mem_of_find?_eq_some h
  refine ⟨of_decide_eq_true reads, ?_⟩
  split_ifs at cut <;> simp only [List.mem_cons, List.not_mem_nil, or_false] at cut <;>
    rcases cut with rfl | rfl <;> rfl

/-- **The shortest decimal of a finite number reads back as the number.** -/
theorem Binary64.nearest_shortest {x : Binary64} (finite : x.isFinite = true) :
    x.shortest.nearest = x ∧ x.shortest.negative = x.negative := by
  rw [shortest]
  cases found : (List.range x.exactDecimal.width).findSome? fun n =>
      x.exactDecimal.cutReading? x (x.exactDecimal.width - (n + 1)) with
  | none => exact ⟨nearest_exactDecimal finite, x.negative_exactDecimal⟩
  | some c =>
    obtain ⟨n, -, cut⟩ := List.exists_of_findSome?_eq_some found
    obtain ⟨reads, sign⟩ := Decimal.cutReading?_eq_some cut
    exact ⟨reads, sign.trans x.negative_exactDecimal⟩

end SchemaModel
