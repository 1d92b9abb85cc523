/-!
# Numerals

A numeral is a run of digits, with blanks and a sign before it.  Where any base may be used, a zero
at its start tells that the digits are octal, and a zero and an `x` that they are hexadecimal.

* `Numeral.digit?` — the value of a digit;
* `Numeral.read?` — the number that a text starts with;
* `Numeral.whole?` — the number that a text is;
* `Numeral.fits` — whether a number has no more than 64 bits.
-/

namespace SchemaModel.Shell.Numeral

/-- The value of a digit in a base of at most sixteen. -/
def digit? (base : Nat) (c : Char) : Option Nat :=
  let value :=
    if '0' ≤ c ∧ c ≤ '9' then c.toNat - '0'.toNat
    else if 'a' ≤ c ∧ c ≤ 'f' then c.toNat - 'a'.toNat + 10
    else if 'A' ≤ c ∧ c ≤ 'F' then c.toNat - 'A'.toNat + 10
    else base
  if value < base then some value else none

/-- Whether a character is a digit in a base. -/
def isDigit (base : Nat) (c : Char) : Bool := (digit? base c).isSome

/-- The number that some digits stand for. -/
def value (base : Nat) (digits : List Char) : Nat :=
  digits.foldl (fun n c => base * n + (digit? base c).getD 0) 0

/-- The number at the start of a text without a sign, with what follows it. -/
def unsigned (anyBase : Bool) (text : List Char) : Nat × List Char :=
  let inBase (base : Nat) (text : List Char) : Nat × List Char :=
    let digits := text.takeWhile (isDigit base)
    (value base digits, text.drop digits.length)
  match anyBase, text with
  | true, '0' :: x :: c :: rest =>
    if (x = 'x' ∨ x = 'X') ∧ isDigit 16 c then inBase 16 (c :: rest) else inBase 8 text
  | true, '0' :: _ => inBase 8 text
  | _, _ => inBase 10 text

/-- Whether a character may stand before a numeral. -/
def isBlank (c : Char) : Bool := c = ' ' || ('\t' ≤ c && c ≤ '\r')

/-- The number that a text starts with, after blanks and a sign, with what follows it. -/
def read? (anyBase : Bool) (text : List Char) : Option (Int × List Char) :=
  let signed (negative : Bool) (text : List Char) : Option (Int × List Char) :=
    if !(text.head?.any Char.isDigit) then none
    else
      let (n, rest) := unsigned anyBase text
      some (if negative then -(n : Int) else n, rest)
  match text.dropWhile isBlank with
  | '-' :: rest => signed true rest
  | '+' :: rest => signed false rest
  | rest => signed false rest

/-- Whether a number has no more than 64 bits. -/
def fits (n : Int) : Bool := Int64.minValue.toInt ≤ n && n ≤ Int64.maxValue.toInt

/-- The number that a text is, with blanks around it. -/
def whole? (anyBase : Bool) (text : String) : Option Int := do
  let (n, rest) ← read? anyBase text.toList
  if rest.all isBlank && fits n then some n else none

/-- The greatest status or count that can be given. -/
def limit : Nat := 2147483647

/-- The number without a sign that a text is. -/
def natural? (text : String) : Option Nat := do
  let n ← whole? false text
  if 0 ≤ n ∧ n ≤ limit then some n.toNat else none

/-- The wording for a text that is no number. -/
def fault (text : String) : String := "Illegal number: " ++ text

end SchemaModel.Shell.Numeral
