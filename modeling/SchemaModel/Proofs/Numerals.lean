import Mathlib
import SchemaModel.Json.Token

/-!
# Reading a numeral

The reader takes a numeral in one character at a time.  A stretch of digits adds its value to what
it gathers, so what a numeral written in parts (digits, a point and digits, an exponent) is read as
can be said in one equation.  A text that spells a numeral to its end is one token of the reader.

* `NumeralPart.run` — the reader within one numeral;
* `NumeralPart.run_digits` — what a stretch of digits does;
* `Numeral.run_pointed`, `Numeral.run_scientific` — numerals with a point and with an exponent;
* `Numeral.read?` — the numeral that a whole text spells, its sign included;
* `Numeral.number` — the number that a numeral stands for, and `Numeral.value?_eq_some`: an
  integer of 64 bits is what the reader finds;
* `tokens_of_read?` — a text that spells a numeral is one token.
-/

namespace SchemaModel.Json

/-! ### The reader within a numeral -/

/-- Reads further characters of a numeral, unless it ends or breaks off before. -/
def NumeralPart.run : NumeralPart → Numeral → List Char → Option (NumeralPart × Numeral)
  | part, n, [] => some (part, n)
  | part, n, c :: cs =>
    match part.step n c with
    | .more part n => part.run n cs
    | _ => none

/-- The characters that numerals are made of. -/
def inNumeral (c : Char) : Bool := c.isDigit || ['+', '-', '.', 'e', 'E'].contains c

namespace NumeralPart

variable {part part' : NumeralPart} {n n' : Numeral} {c : Char} {cs ds : List Char}

theorem run_cons (h : part.step n c = .more part' n') : part.run n (c :: cs) = part'.run n' cs := by
  rw [run, h]

theorem exists_step_of_run_cons {r : NumeralPart × Numeral} (h : part.run n (c :: cs) = some r) :
    ∃ part' n', part.step n c = .more part' n' ∧ part'.run n' cs = some r := by
  rw [run] at h
  split at h
  · next taken => exact ⟨_, _, taken, h⟩
  · cases h

theorem run_append (h : part.run n cs = some (part', n')) :
    part.run n (cs ++ ds) = part'.run n' ds := by
  induction cs generalizing part n with
  | nil =>
    cases h
    rfl
  | cons c cs ih =>
    obtain ⟨next, m, taken, rest⟩ := exists_step_of_run_cons h
    rw [List.cons_append, run_cons taken, ih rest]

theorem digit?_eq_some (h : c.isDigit = true) : digit? c = some (c.toNat - '0'.toNat) := if_pos h

theorem eq_zero_of_value (digit : c.isDigit = true) (zero : c.toNat - '0'.toNat = 0) : c = '0' := by
  rw [Char.isDigit_iff_toNat] at digit
  have low : '0'.toNat ≤ c.toNat := digit.1
  exact Char.toNat_inj.1 (by omega)

theorem inNumeral_of_step (h : part.step n c = .more part' n') : inNumeral c = true := by
  by_cases digit : c.isDigit = true
  · simp [inNumeral, digit]
  -- without a digit only a point, a mark and a sign go on
  have none : digit? c = none := if_neg digit
  unfold NumeralPart.step at h
  rw [none] at h
  cases part <;> dsimp only at h <;> (try split_ifs at h) <;> simp_all [inNumeral]

theorem isDigit_of_step_minus (h : minus.step n c = .more part' n') : c.isDigit = true := by
  by_contra digit
  have none : digit? c = none := if_neg digit
  unfold NumeralPart.step at h
  rw [none] at h
  cases h

theorem inNumeral_of_run (h : part.run n cs = some (part', n')) : ∀ c ∈ cs, inNumeral c = true := by
  induction cs generalizing part n with
  | nil => simp
  | cons c cs ih =>
    obtain ⟨next, m, taken, rest⟩ := exists_step_of_run_cons h
    exact List.forall_mem_cons.2 ⟨inNumeral_of_step taken, ih rest⟩

/-! ### Stretches of digits -/

/-- A part that takes in every digit the same way takes in a stretch of them: what it gathers is the
value of the digits, and how many there were. -/
theorem run_digits {f : ℕ → ℕ → Numeral}
    (step : ∀ v k c, c.isDigit = true →
      part.step (f v k) c = .more part (f (v * 10 + (c.toNat - '0'.toNat)) (k + 1)))
    (digits : ∀ c ∈ cs, c.isDigit = true) (v k : ℕ) :
    part.run (f v k) cs = some (part, f (Nat.ofDigitChars 10 cs v) (k + cs.length)) := by
  induction cs generalizing v k with
  | nil => rfl
  | cons c cs ih =>
    obtain ⟨digit, rest⟩ := List.forall_mem_cons.1 digits
    rw [run_cons (step v k c digit), ih rest, Nat.ofDigitChars_cons, List.length_cons, add_assoc,
      add_comm 1, mul_comm 10 v]

theorem run_whole (digits : ∀ c ∈ cs, c.isDigit = true) :
    whole.run n cs = some (whole, { n with digits := Nat.ofDigitChars 10 cs n.digits }) := by
  refine run_digits (f := fun v _ => { n with digits := v }) ?_ digits n.digits 0
  intro v k c digit
  unfold NumeralPart.step
  rw [digit?_eq_some digit]

theorem run_fraction (digits : ∀ c ∈ cs, c.isDigit = true) :
    fraction.run n cs =
      some (fraction,
        { n with
          digits := Nat.ofDigitChars 10 cs n.digits
          fractionDigits := n.fractionDigits + cs.length }) := by
  refine run_digits (f := fun v k => { n with digits := v, fractionDigits := k }) ?_ digits
    n.digits n.fractionDigits
  intro v k c digit
  unfold NumeralPart.step
  rw [digit?_eq_some digit]

theorem run_exponent (digits : ∀ c ∈ cs, c.isDigit = true) :
    exponent.run n cs =
      some (exponent, { n with exponentDigits := Nat.ofDigitChars 10 cs n.exponentDigits }) := by
  refine run_digits (f := fun v _ => { n with exponentDigits := v }) ?_ digits n.exponentDigits 0
  intro v k c digit
  unfold NumeralPart.step
  rw [digit?_eq_some digit]

/-- Parts that take in a first digit alike read the same from there on. -/
theorem run_congr (alike : ∀ c, c.isDigit = true → part.step n c = part'.step n c)
    (nonempty : cs ≠ []) (digits : ∀ c ∈ cs, c.isDigit = true) :
    part.run n cs = part'.run n cs := by
  cases cs with
  | nil => exact absurd rfl nonempty
  | cons c cs => rw [run, run, alike c (digits c List.mem_cons_self)]

/-- After the point the first digit is read like the others. -/
theorem run_point (nonempty : cs ≠ []) (digits : ∀ c ∈ cs, c.isDigit = true) :
    point.run n cs = fraction.run n cs := by
  refine run_congr (fun c digit => ?_) nonempty digits
  unfold NumeralPart.step
  rw [digit?_eq_some digit]

/-- After the sign of the exponent the first digit is read like the others. -/
theorem run_markSign (nonempty : cs ≠ []) (digits : ∀ c ∈ cs, c.isDigit = true) :
    markSign.run n cs = exponent.run n cs := by
  refine run_congr (fun c digit => ?_) nonempty digits
  unfold NumeralPart.step
  rw [digit?_eq_some digit]

end NumeralPart

/-! ### Digits before and after the point -/

/-- Digits of which the first is no zero. -/
structure IsLeading (ds : List Char) : Prop where
  isDigit : ∀ c ∈ ds, c.isDigit = true
  first : ∃ c cs, ds = c :: cs ∧ c ≠ '0'

theorem IsLeading.append {ds es : List Char} (h : IsLeading ds)
    (digits : ∀ c ∈ es, c.isDigit = true) : IsLeading (ds ++ es) := by
  obtain ⟨c, cs, rfl, nonzero⟩ := h.first
  exact ⟨List.forall_mem_append.2 ⟨h.isDigit, digits⟩, c, cs ++ es, rfl, nonzero⟩

theorem IsLeading.of_append {ds es : List Char} (h : IsLeading (ds ++ es)) (nonempty : ds ≠ []) :
    IsLeading ds := by
  obtain ⟨c, cs, shape, nonzero⟩ := h.first
  cases ds with
  | nil => exact absurd rfl nonempty
  | cons d ds =>
    obtain ⟨rfl, -⟩ := List.cons.inj shape
    exact ⟨(List.forall_mem_append.1 h.isDigit).1, d, ds, rfl, nonzero⟩

theorem isDigit_of_mem_toDigits {n : ℕ} : ∀ c ∈ Nat.toDigits 10 n, c.isDigit = true :=
  fun _ => Nat.isDigit_of_mem_toDigits (by omega) (by omega)

theorem isLeading_toDigits {n : ℕ} (pos : 0 < n) : IsLeading (Nat.toDigits 10 n) := by
  refine ⟨isDigit_of_mem_toDigits, ?_⟩
  induction n using Nat.strong_induction_on with
  | h n ih =>
    rw [Nat.toDigits_eq_if (by omega)]
    split_ifs with small
    · refine ⟨_, [], rfl, ?_⟩
      interval_cases n <;> decide
    · obtain ⟨c, cs, shape, nonzero⟩ := ih (n / 10) (by omega) (by omega)
      exact ⟨c, _, by rw [shape, List.cons_append], nonzero⟩

/-- Digits that may stand before the point: a single zero, or digits that begin with none. -/
def IsWhole (cs : List Char) : Prop := cs = ['0'] ∨ IsLeading cs

theorem isWhole_toDigits (n : ℕ) : IsWhole (Nat.toDigits 10 n) := by
  rcases Nat.eq_zero_or_pos n with rfl | pos
  · exact .inl rfl
  · exact .inr (isLeading_toDigits pos)

theorem IsWhole.run {cs : List Char} (h : IsWhole cs) (negative : Bool) :
    ∃ part, (part = .zero ∨ part = .whole) ∧
      NumeralPart.minus.run { negative := negative } cs =
        some (part, { negative := negative, digits := Nat.ofDigitChars 10 cs 0 }) := by
  rcases h with rfl | leading
  · exact ⟨.zero, .inl rfl, rfl⟩
  obtain ⟨c, cs, rfl, nonzero⟩ := leading.first
  obtain ⟨digit, rest⟩ := List.forall_mem_cons.1 leading.isDigit
  obtain ⟨d, value⟩ := Nat.exists_eq_add_one_of_ne_zero fun zero =>
    nonzero (NumeralPart.eq_zero_of_value digit zero)
  have step : NumeralPart.minus.step { negative := negative } c =
      .more .whole { negative := negative, digits := d + 1 } := by
    unfold NumeralPart.step
    rw [NumeralPart.digit?_eq_some digit, value]
    rfl
  refine ⟨.whole, .inr rfl, ?_⟩
  rw [NumeralPart.run_cons step, NumeralPart.run_whole rest, Nat.ofDigitChars_cons, value, mul_zero,
    zero_add]

namespace Numeral

/-- The numeral that the characters after the sign spell. -/
def spelled? (negative : Bool) (cs : List Char) : Option Numeral :=
  ((NumeralPart.minus.run { negative := negative } cs).filter (·.1.complete)).map Prod.snd

theorem spelled?_eq_some {negative : Bool} {cs : List Char} {part : NumeralPart} {n : Numeral}
    (h : NumeralPart.minus.run { negative := negative } cs = some (part, n))
    (complete : part.complete = true) : spelled? negative cs = some n := by
  simp [spelled?, h, complete]

/-- The numeral with given digits before and after the point and a given exponent. -/
def ofParts (negative : Bool) (w f : List Char) (e : ℤ) : Numeral where
  negative := negative
  digits := Nat.ofDigitChars 10 (w ++ f) 0
  fractionDigits := f.length
  integral := false
  exponentNegative := decide (e < 0)
  exponentDigits := e.natAbs

theorem run_pointed {w f : List Char} (whole : IsWhole w) (nonempty : f ≠ [])
    (digits : ∀ c ∈ f, c.isDigit = true) (negative : Bool) :
    NumeralPart.minus.run { negative := negative } (w ++ '.' :: f) =
      some (.fraction, ofParts negative w f 0) := by
  obtain ⟨part, ends, run⟩ := whole.run negative
  have point : part.step { negative := negative, digits := Nat.ofDigitChars 10 w 0 } '.' =
      .more .point
        { negative := negative, digits := Nat.ofDigitChars 10 w 0, integral := false } := by
    rcases ends with rfl | rfl <;> rfl
  rw [NumeralPart.run_append run, NumeralPart.run_cons point,
    NumeralPart.run_point nonempty digits, NumeralPart.run_fraction digits, ofParts,
    Nat.ofDigitChars_append, zero_add]
  rfl

/-- The exponent may follow the whole digits or the fraction. -/
theorem run_mark {part : NumeralPart} {n : Numeral} (e : ℤ)
    (ends : part = .zero ∨ part = .whole ∨ part = .fraction ∧ n.integral = false)
    (fresh : n.exponentNegative = false ∧ n.exponentDigits = 0) :
    part.run n ('e' :: (if e < 0 then '-' else '+') :: Nat.toDigits 10 e.natAbs) =
      some (.exponent,
        { n with
          integral := false, exponentNegative := decide (e < 0), exponentDigits := e.natAbs }) := by
  have mark : part.step n 'e' = .more .mark { n with integral := false } := by
    rcases ends with rfl | rfl | ⟨rfl, integral⟩
    · rfl
    · rfl
    · rw [← integral]
      rfl
  have sign : NumeralPart.mark.step { n with integral := false } (if e < 0 then '-' else '+') =
      .more .markSign { n with integral := false, exponentNegative := decide (e < 0) } := by
    split_ifs with negative
    · rw [decide_eq_true negative]
      rfl
    · rw [decide_eq_false negative, ← fresh.1]
      rfl
  rw [NumeralPart.run_cons mark, NumeralPart.run_cons sign,
    NumeralPart.run_markSign Nat.toDigits_ne_nil isDigit_of_mem_toDigits,
    NumeralPart.run_exponent isDigit_of_mem_toDigits, fresh.2, Nat.ofDigitChars_ten_toDigits]

theorem run_scientific {w f : List Char} (whole : IsWhole w) (digits : ∀ c ∈ f, c.isDigit = true)
    (e : ℤ) (negative : Bool) :
    NumeralPart.minus.run { negative := negative }
        (w ++ (if f.isEmpty then [] else '.' :: f) ++
          'e' :: (if e < 0 then '-' else '+') :: Nat.toDigits 10 e.natAbs) =
      some (.exponent, ofParts negative w f e) := by
  cases f with
  | nil =>
    obtain ⟨part, ends, run⟩ := whole.run negative
    rw [List.isEmpty_nil, if_pos rfl, List.append_nil, NumeralPart.run_append run,
      run_mark e (ends.imp_right .inl) ⟨rfl, rfl⟩, ofParts, List.append_nil]
    rfl
  | cons c cs =>
    have run := run_pointed whole (List.cons_ne_nil c cs) digits negative
    rw [List.isEmpty_cons, if_neg Bool.false_ne_true, NumeralPart.run_append run,
      run_mark e (.inr (.inr ⟨rfl, rfl⟩)) ⟨rfl, rfl⟩]
    rfl

end Numeral

/-! ### Whole texts -/

namespace Numeral

/-- What is written before the digits. -/
def sign (negative : Bool) : List Char := if negative then ['-'] else []

/-- The numeral that a whole text spells, its sign included. -/
def read? : List Char → Option Numeral
  | '-' :: cs => spelled? true cs
  | cs => spelled? false cs

variable {text cs : List Char} {n : Numeral}

theorem exists_run_of_spelled? {negative : Bool} (h : spelled? negative cs = some n) :
    ∃ part, NumeralPart.minus.run { negative := negative } cs = some (part, n) ∧
      part.complete = true := by
  simp only [spelled?, Option.map_eq_some_iff, Option.filter_eq_some_iff, Prod.exists] at h
  obtain ⟨part, m, ⟨run, complete⟩, rfl⟩ := h
  exact ⟨part, run, complete⟩

/-- A numeral begins with a digit once its sign is read. -/
theorem exists_digit_of_spelled? {negative : Bool} (h : spelled? negative cs = some n) :
    ∃ c rest, cs = c :: rest ∧ c.isDigit = true := by
  obtain ⟨part, run, complete⟩ := exists_run_of_spelled? h
  cases cs with
  | nil =>
    cases run
    cases complete
  | cons c rest =>
    obtain ⟨next, m, taken, -⟩ := NumeralPart.exists_step_of_run_cons run
    exact ⟨c, rest, rfl, NumeralPart.isDigit_of_step_minus taken⟩

theorem read?_eq_spelled? {negative : Bool} (h : spelled? negative cs = some n) :
    read? (sign negative ++ cs) = some n := by
  obtain ⟨c, rest, rfl, digit⟩ := exists_digit_of_spelled? h
  cases negative with
  | true => exact h
  | false =>
    change read? (c :: rest) = some n
    rw [read?]
    · exact h
    · rintro ds ⟨⟩
      cases digit

/-- A text that spells a numeral is a sign or none, and what spells the numeral after it. -/
theorem exists_spelled?_of_read? (h : read? text = some n) :
    ∃ negative cs, text = sign negative ++ cs ∧ spelled? negative cs = some n := by
  rw [read?.eq_def] at h
  split at h
  · exact ⟨true, _, rfl, h⟩
  · exact ⟨false, _, rfl, h⟩

/-- What a numeral looks like from outside: it begins with a sign or a digit, and it holds only
characters of numerals. -/
theorem chars_of_read? (h : read? text = some n) :
    (∃ c cs, text = c :: cs ∧ (c = '-' ∨ c.isDigit = true)) ∧ ∀ c ∈ text, inNumeral c = true := by
  obtain ⟨negative, cs, rfl, spelled⟩ := exists_spelled?_of_read? h
  obtain ⟨c, rest, shape, digit⟩ := exists_digit_of_spelled? spelled
  obtain ⟨part, run, -⟩ := exists_run_of_spelled? spelled
  have chars := NumeralPart.inNumeral_of_run run
  cases negative with
  | true =>
    exact ⟨⟨'-', cs, rfl, .inl rfl⟩, List.forall_mem_cons.2 ⟨rfl, chars⟩⟩
  | false =>
    exact ⟨⟨c, rest, shape, .inr digit⟩, chars⟩

end Numeral

/-- The digits of an integer spell it. -/
theorem spelled?_toDigits (negative : Bool) (n : ℕ) :
    Numeral.spelled? negative (Nat.toDigits 10 n) = some { negative := negative, digits := n } := by
  obtain ⟨part, ends, run⟩ := (isWhole_toDigits n).run negative
  rw [Nat.ofDigitChars_ten_toDigits] at run
  refine Numeral.spelled?_eq_some run ?_
  rcases ends with rfl | rfl <;> rfl

/-! ### The number of a numeral -/

namespace Numeral

/-- The numeral as a decimal. -/
def decimal (n : Numeral) : Decimal :=
  let exponent : Int := if n.exponentNegative then -(n.exponentDigits : Int) else n.exponentDigits
  ⟨n.negative, n.digits, exponent - n.fractionDigits⟩

/-- The number that a numeral of any size stands for; minus zero is no integer. -/
def number (n : Numeral) : Number :=
  if n.integral ∧ ¬ (n.negative ∧ n.digits = 0) then
    .int (if n.negative then -n.digits else n.digits)
  else .float n.decimal.nearest

/-- A reader finds that number if it is an integer of 64 bits, with a sign or without. -/
theorem value?_eq_some {n : Numeral} {i : ℤ} (stands : n.number = .int i) (low : -2 ^ 63 ≤ i)
    (high : i < 2 ^ 64) : n.value? = some (.int i) := by
  by_cases whole : n.integral = true ∧ ¬ (n.negative = true ∧ n.digits = 0)
  · rw [number, if_pos whole] at stands
    cases stands
    rw [value?, if_pos whole.1]
    cases negative : n.negative with
    | false =>
      rw [negative, if_neg Bool.false_ne_true] at high
      have fits : n.digits < Nat.pow 2 64 := by simp only [Nat.pow_eq]; omega
      simp [fits]
    | true =>
      rw [negative, if_pos rfl] at low
      have positive : 0 < n.digits := by
        have := whole.2
        simp only [negative, true_and] at this
        omega
      have fits : n.digits ≤ Nat.pow 2 63 := by simp only [Nat.pow_eq]; omega
      simp [positive, fits]
  · rw [number, if_neg whole] at stands
    cases stands

end Numeral

/-! ### Tokens -/

/-- A first digit without a sign is read like one after a minus. -/
theorem Scan.start_of_isDigit {c : Char} (digit : c.isDigit = true) {part : NumeralPart}
    {n : Numeral} (h : NumeralPart.minus.step {} c = .more part n) :
    Scan.start c = ([], .numeral part n) := by
  obtain ⟨low, high⟩ := Char.isDigit_iff_toNat.1 digit
  change 48 ≤ c.toNat at low
  change c.toNat ≤ 57 at high
  rw [← Char.ofNat_toNat c] at h ⊢
  generalize c.toNat = code at h low high
  interval_cases code <;> cases h <;> rfl

/-- A character that completes no token only moves the machine on. -/
theorem Scan.advance_eq {s s' : Scan} {c : Char} (h : s.step c = ([], s')) (done : List Token) :
    Scan.advance (s, done) c = (s', done) := by
  unfold Scan.advance
  dsimp only
  rw [h]
  rfl

theorem Scan.foldl_advance_of_run {part part' : NumeralPart} {n n' : Numeral} {cs : List Char}
    (h : part.run n cs = some (part', n')) (done : List Token) :
    cs.foldl Scan.advance (.numeral part n, done) = (.numeral part' n', done) := by
  induction cs generalizing part n with
  | nil =>
    cases h
    rfl
  | cons c cs ih =>
    obtain ⟨next, m, taken, rest⟩ := NumeralPart.exists_step_of_run_cons h
    have step : (Scan.numeral part n).step c = ([], .numeral next m) := by
      unfold Scan.step
      dsimp only
      rw [taken]
    rw [List.foldl_cons, Scan.advance_eq step, ih rest]

/-- A text that spells a numeral leaves the machine at the end of the numeral. -/
theorem Scan.exists_foldl_advance_of_read? {text : List Char} {n : Numeral}
    (h : Numeral.read? text = some n) :
    ∃ part : NumeralPart, part.complete = true ∧
      text.foldl Scan.advance (.between, []) = (.numeral part n, []) := by
  obtain ⟨negative, cs, rfl, spelled⟩ := Numeral.exists_spelled?_of_read? h
  obtain ⟨part, run, complete⟩ := Numeral.exists_run_of_spelled? spelled
  refine ⟨part, complete, ?_⟩
  cases negative with
  | true => exact Scan.foldl_advance_of_run run []
  | false =>
    obtain ⟨c, rest, rfl, digit⟩ := Numeral.exists_digit_of_spelled? spelled
    obtain ⟨first, m, taken, run⟩ := NumeralPart.exists_step_of_run_cons run
    have step : Scan.between.step c = ([], .numeral first m) := Scan.start_of_isDigit digit taken
    change (c :: rest).foldl Scan.advance (.between, []) = _
    rw [List.foldl_cons, Scan.advance_eq step]
    exact Scan.foldl_advance_of_run run []

/-- **A text that spells a numeral is one token.** -/
theorem tokens_of_read? {text : List Char} {n : Numeral} (h : Numeral.read? text = some n) :
    tokens text = [.number n.value?] := by
  obtain ⟨part, complete, state⟩ := Scan.exists_foldl_advance_of_read? h
  have last : Scan.finish (.numeral part n) = [.number n.value?] := if_pos complete
  rw [tokens, state]
  exact last

end SchemaModel.Json
