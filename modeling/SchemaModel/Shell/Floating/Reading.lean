import SchemaModel.Binary64.Nearest
import SchemaModel.Shell.Numeral

/-!
# Reading numbers with a fraction

A number is written with a point and an exponent, in decimal or in hexadecimal digits, or is the
word for an infinity or for what is no number.  It is rounded to the nearest one of 64 bits; what is
too great, or loses digits because it is too small, is out of range.

* `Floating` — a number, and whether it was out of range;
* `Floating.read?` — the number that a text starts with.
-/

namespace SchemaModel.Shell

/-- A number, and whether it was out of range before it was rounded. -/
structure Floating where
  value : Binary64
  isOutOfRange : Bool := false
deriving DecidableEq, Repr

namespace Floating

/-! ### Rounding -/

/-- Whether a positive ratio is below all normal numbers, even when it is rounded to as many bits as
these have. -/
def isTiny (num den : Nat) : Bool := decide (num * Nat.pow 2 1076 < (Nat.pow 2 54 - 1) * den)

/-- Whether a ratio lies between two neighbours among the smallest numbers. -/
def losesDigits (num den : Nat) : Bool := num * Nat.pow 2 1074 % den ≠ 0

/-- The number nearest to a ratio that is not zero. -/
def ofRatio (negative : Bool) (num den : Nat) : Floating :=
  let code := Binary64.codeOfRatio num den
  { value := Binary64.ofCode negative code
    isOutOfRange := code = Binary64.infinityCode || isTiny num den && losesDigits num den }

/-- Zero. -/
def zero (negative : Bool) : Floating := { value := Binary64.ofCode negative 0 }

/-- An infinity. -/
def infinity (negative : Bool) : Floating :=
  { value := Binary64.ofCode negative Binary64.infinityCode }

/-- What is no number. -/
def noNumber (negative : Bool) : Floating :=
  { value := Binary64.ofCode negative (Binary64.infinityCode + Nat.pow 2 51) }

/-- The number nearest to a coefficient times a power of a base.  Of those that are far out of range
no power is formed. -/
def ofPower (negative : Bool) (base coefficient : Nat) (exponent : Int) : Floating :=
  let top : Int := exponent + (Nat.toDigits base coefficient).length
  if coefficient = 0 then zero negative
  else if 1100 < top then { infinity negative with isOutOfRange := true }
  else if top < -1100 then { zero negative with isOutOfRange := true }
  else if 0 ≤ exponent then ofRatio negative (coefficient * Nat.pow base exponent.toNat) 1
  else ofRatio negative coefficient (Nat.pow base (-exponent).toNat)

/-! ### Reading -/

/-- A word at the start of a text, in letters of any case; what follows it. -/
def afterWord? (word : String) (text : List Char) : Option (List Char) :=
  let start := text.take word.length
  if start.map Char.toLower = word.toList then some (text.drop word.length) else none

/-- The exponent at the start of a text, which starts with a letter; zero if there is none. -/
def exponent (letter : Char) (text : List Char) : Int × List Char :=
  let digits (negative : Bool) (text rest : List Char) : Int × List Char :=
    let ds := rest.takeWhile Char.isDigit
    let n : Int := Numeral.value 10 ds
    if ds.isEmpty then (0, text) else (if negative then -n else n, rest.drop ds.length)
  match text with
  | c :: rest =>
    if c.toLower ≠ letter then (0, text)
    else
      match rest with
      | '-' :: rest => digits true text rest
      | '+' :: rest => digits false text rest
      | rest => digits false text rest
  | [] => (0, [])

/-- Digits of a base with a point among or around them: the number without the point, how many
digits follow it, and the rest.  There is at least one digit. -/
def digits? (base : Nat) (text : List Char) : Option (Nat × Nat × List Char) :=
  let whole := text.takeWhile (Numeral.isDigit base)
  let rest := text.drop whole.length
  let (fraction, rest) :=
    match rest with
    | '.' :: more =>
      let fraction := more.takeWhile (Numeral.isDigit base)
      if whole.isEmpty ∧ fraction.isEmpty then ([], rest) else (fraction, more.drop fraction.length)
    | _ => ([], rest)
  if whole.isEmpty ∧ fraction.isEmpty then none
  else some (Numeral.value base (whole ++ fraction), fraction.length, rest)

/-- The hexadecimal number at the start of a text, whose exponent is one of two. -/
def hexadecimal? (negative : Bool) (text : List Char) : Option (Floating × List Char) := do
  let rest ← afterWord? "0x" text
  let (coefficient, places, rest) ← digits? 16 rest
  let (e, rest) := exponent 'p' rest
  return (ofPower negative 2 coefficient (e - 4 * places), rest)

/-- The decimal number at the start of a text. -/
def decimal? (negative : Bool) (text : List Char) : Option (Floating × List Char) := do
  let (coefficient, places, rest) ← digits? 10 text
  let (e, rest) := exponent 'e' rest
  return (ofPower negative 10 coefficient (e - places), rest)

/-- The word for an infinity, or for what is no number, at the start of a text. -/
def word? (negative : Bool) (text : List Char) : Option (Floating × List Char) :=
  match afterWord? "infinity" text <|> afterWord? "inf" text, afterWord? "nan" text with
  | some rest, _ => some (infinity negative, rest)
  | none, some ('(' :: rest) =>
    match rest.dropWhile fun c => c.isAlphanum || c = '_' with
    | ')' :: after => some (noNumber negative, after)
    | _ => some (noNumber negative, '(' :: rest)
  | none, some rest => some (noNumber negative, rest)
  | none, none => none

/-- The number that a text starts with, after blanks and a sign, with what follows it. -/
def read? (text : List Char) : Option (Floating × List Char) :=
  let signed (negative : Bool) (text : List Char) : Option (Floating × List Char) :=
    word? negative text <|> hexadecimal? negative text <|> decimal? negative text
  match text.dropWhile Numeral.isBlank with
  | '-' :: rest => signed true rest
  | '+' :: rest => signed false rest
  | rest => signed false rest

end Floating

end SchemaModel.Shell
