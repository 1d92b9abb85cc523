import SchemaModel.Binary64.Nearest

/-!
# The shortest decimal that reads back

A finite number has an exact decimal expansion.  `Binary64.shortest` cuts that expansion to the
fewest leading digits from which, rounded down or up in the last place, `Decimal.nearest` finds
the number again; of two such decimals it takes the nearer one.

* `Decimal.cut` — the two neighbours on the grid of a given number of digits;
* `Binary64.shortest` — the shortest decimal that reads back;
* `Binary64.text` — its written form, with the choices of `Layout`.
-/

namespace SchemaModel

namespace Decimal

/-- Rounds down (`up := 0`) or up (`up := 1`) to a coarser grid, `dropped` digits shorter. -/
def cut (d : Decimal) (dropped up : Nat) : Decimal :=
  ⟨d.negative, d.coefficient / Nat.pow 10 dropped + up, d.exponent + dropped⟩

/-- Whether rounding up to the grid moves the decimal less than rounding down; a tie goes to the
even neighbour. -/
def cutsUp (d : Decimal) (dropped : Nat) : Bool :=
  divHalfEven d.coefficient (Nat.pow 10 dropped) != d.coefficient / Nat.pow 10 dropped

/-- The neighbour on a coarser grid that reads back as `x`, the nearer one if both do. -/
def cutReading? (d : Decimal) (x : Binary64) (dropped : Nat) : Option Decimal :=
  let down := d.cut dropped 0
  let up := d.cut dropped 1
  let ordered := if d.cutsUp dropped then [up, down] else [down, up]
  ordered.find? (·.nearest = x)

end Decimal

namespace Binary64

/-- The shortest decimal that reads back as a finite number; the exact expansion always does, so
the search cannot come to nothing. -/
def shortest (x : Binary64) : Decimal :=
  let exact := x.exactDecimal
  let width := exact.width
  let found := (List.range width).findSome? fun n => exact.cutReading? x (width - (n + 1))
  found.getD exact

/-- How a number is written: exponents from `leastFixed` to below `endFixed` in fixed notation,
all others in scientific notation. -/
structure Layout where
  leastFixed : Int
  endFixed : Int
deriving DecidableEq, Repr

/-- Fixed notation from `0.00001` up to below `1e+16`. -/
def layout : Layout := ⟨-5, 16⟩

/-- The digits without trailing zeros; zero keeps one digit. -/
def trimZeros (digits : List Char) : List Char :=
  match (digits.reverse.dropWhile (· == '0')).reverse with
  | [] => ['0']
  | trimmed => trimmed

/-- Fixed notation of `d.ddd · 10 ^ k`; a whole number gets `.0`. -/
def fixedText (digits : List Char) (k : Int) : List Char :=
  if 0 ≤ k then
    let whole := k.toNat + 1
    let padded := digits ++ List.replicate (whole - digits.length) '0'
    let fraction := padded.drop whole
    padded.take whole ++ '.' :: (if fraction.isEmpty then ['0'] else fraction)
  else '0' :: '.' :: List.replicate ((-k).toNat - 1) '0' ++ digits

/-- Scientific notation of `d.ddd · 10 ^ k`: the sign of the exponent is always written and its
digits are not padded. -/
def scientificText (digits : List Char) (k : Int) : List Char :=
  let head := digits.take 1
  let tail := digits.drop 1
  head ++ (if tail.isEmpty then [] else '.' :: tail) ++
    'e' :: (if k < 0 then '-' else '+') :: Nat.toDigits 10 k.natAbs

/-- The written magnitude of a decimal. -/
def magnitudeText (d : Decimal) : List Char :=
  if d.coefficient = 0 then ['0', '.', '0']
  else
    let digits := Nat.toDigits 10 d.coefficient
    let k : Int := d.exponent + digits.length - 1
    if layout.leastFixed ≤ k ∧ k < layout.endFixed then fixedText (trimZeros digits) k
    else scientificText (trimZeros digits) k

/-- The written form of a number: the shortest decimal that reads back.  Infinities and
not-a-numbers have names. -/
def text (x : Binary64) : String :=
  let sign := if x.negative then ['-'] else []
  if x.isFinite then String.ofList (sign ++ magnitudeText x.shortest)
  else if x.code = infinityCode then String.ofList (sign ++ ['i', 'n', 'f'])
  else "NaN"

end Binary64

end SchemaModel
