import SchemaModel.Shell.Escape
import SchemaModel.Shell.Floating.Reading
import SchemaModel.Shell.Floating.Text

/-!
# Printing by a format

A format is text with escapes and with places for arguments.  A place may have flags, a width and a
precision, and its letter says how the argument is shown.  The format is used again as long as
arguments are left; a missing argument counts as empty, or as zero.

* `Format.Place`, `Format.Piece` — the places and the other parts of a format;
* `Format.pieces` — the parts of a text;
* `Format.print` — what a format and its arguments print.
-/

namespace SchemaModel.Shell.Format

/-- A width or a precision: a number, or one that is given as an argument. -/
inductive Size where
  | fixed (n : Nat)
  | given
deriving DecidableEq, Repr

/-- A place for an argument. -/
structure Place where
  flags : List Char := []
  width : Option Size := none
  precision : Option Size := none
  letter : Char
deriving DecidableEq, Repr

/-- A part of a format.  What goes wrong there has its message. -/
inductive Piece where
  | bytes (b : List UInt8)
  | place (p : Place)
  | fault (message : String)
deriving DecidableEq, Repr

/-! ### Reading -/

/-- The bytes that an escape stands for, and the number of characters after its backslash. -/
def escape (text : List Char) : List UInt8 × Nat :=
  match text with
  | [] => ([0x5C], 0)
  | c :: _ =>
    let digits := (text.take 3).takeWhile (Numeral.isDigit 8)
    match Escape.letter? c with
    | some b => ([b], 1)
    | none =>
      if digits.isEmpty then ([0x5C], 0)
      else ([UInt8.ofNat (Numeral.value 8 digits)], digits.length)

/-- The size at the start of a text, with what follows it. -/
def size (text : List Char) : Option Size × List Char :=
  match text with
  | '*' :: rest => (some .given, rest)
  | _ =>
    let digits := text.takeWhile Char.isDigit
    (if digits.isEmpty then none else some (.fixed (Numeral.value 10 digits)),
      text.drop digits.length)

/-- The letters of places for texts. -/
def textLetters : List Char := ['b', 'c', 's']

/-- The letters of places for whole numbers. -/
def numberLetters : List Char := ['d', 'i', 'o', 'u', 'x', 'X']

/-- The letters of places for numbers with a fraction. -/
def floatingLetters : List Char := ['a', 'A', 'e', 'E', 'f', 'F', 'g', 'G']

/-- The greatest size of a place. -/
def sizeLimit : Nat := 2147483647

/-- Whether a size is no number of 32 bits. -/
def isTooGreat : Option Size → Bool
  | some (.fixed n) => sizeLimit < n
  | some .given | none => false

/-- The place after a percent sign, and the number of characters that it takes. -/
def place (text : List Char) : Piece × Nat :=
  let flags := text.takeWhile "#-+ 0".toList.contains
  let (width, rest) := size (text.drop flags.length)
  let (precision, rest) :=
    match rest with
    | '.' :: rest =>
      let (n, rest) := size rest
      (some (n.getD (.fixed 0)), rest)
    | rest => (none, rest)
  match rest with
  | [] => (.fault "missing format character", text.length)
  | letter :: rest =>
    let taken := text.length - rest.length
    if isTooGreat width || isTooGreat precision then (.fault "xvsnprintf failed", taken)
    else if (textLetters ++ numberLetters ++ floatingLetters).contains letter then
      (.place { flags, width, precision, letter }, taken)
    else (.fault ("%" ++ String.ofList (text.take taken) ++ ": invalid directive"), taken)

/-- The parts of a text.  The number bounds their count. -/
def pieces : Nat → List Char → List Piece
  | 0, _ | _, [] => []
  | fuel + 1, '\\' :: rest =>
    let (b, taken) := escape rest
    .bytes b :: pieces fuel (rest.drop taken)
  | fuel + 1, '%' :: '%' :: rest => .bytes [0x25] :: pieces fuel rest
  | fuel + 1, '%' :: rest =>
    let (p, taken) := place rest
    p :: pieces fuel (rest.drop taken)
  | fuel + 1, c :: rest => .bytes (Escape.plain c) :: pieces fuel rest

/-! ### Arguments -/

/-- What has been printed, the complaints about arguments, the arguments that are left, and whether
the text has been cut or has gone wrong. -/
structure Progress where
  bytes : List UInt8 := []
  complaints : List String := []
  left : List String
  isCut : Bool := false
  fault : Option String := none
deriving DecidableEq, Repr

/-- The next argument, which is a text. -/
def takeText (p : Progress) : String × Progress :=
  (p.left.headD "", { p with left := p.left.drop 1 })

/-- The next argument, which is read as a number: the reader gives it with whether it was out of
range, and with what follows it.  After a quote it is the number of a byte. -/
def takeRead {α : Type} (ofNat : Nat → α) (read? : List Char → Option (α × Bool × List Char))
    (p : Progress) : α × Progress :=
  let (text, p) := takeText p
  let complain (what : String) : Progress :=
    { p with complaints := p.complaints ++ [text ++ ": " ++ what] }
  match text.toList with
  | [] => (ofNat 0, p)
  | '"' :: rest | '\'' :: rest => (ofNat ((String.ofList rest).toUTF8.toList.headD 0).toNat, p)
  | cs =>
    match read? cs with
    | none => (ofNat 0, complain "expected numeric value")
    | some (x, isOutOfRange, rest) =>
      if !rest.isEmpty then (x, complain "not completely converted")
      else if isOutOfRange then (x, complain "Numerical result out of range")
      else (x, p)

/-- The next argument, which is a whole number between two bounds. -/
def takeNumber (least greatest : Int) : Progress → Int × Progress :=
  takeRead (fun n => (n : Int)) fun text =>
    (Numeral.read? true text).map fun (n, rest) =>
      let nearest := max least (min n greatest)
      (nearest, n ≠ nearest, rest)

/-- The next argument, which is a number with a fraction. -/
def takeFloating : Progress → Binary64 × Progress :=
  takeRead (fun n => (Floating.ofPower false 10 n 0).value) fun text =>
    (Floating.read? text).map fun (x, rest) => (x.value, x.isOutOfRange, rest)

/-- The next argument, which is a number with a sign. -/
def takeSigned (p : Progress) : Int × Progress :=
  takeNumber Int64.minValue.toInt Int64.maxValue.toInt p

/-- The next argument, which is a number without a sign; one with a sign counts from the top. -/
def takeUnsigned (p : Progress) : Nat × Progress :=
  let top : Nat := 18446744073709551616
  let (n, p) := takeNumber (1 - top) (top - 1) p
  ((n % top).toNat, p)

/-! ### Printing -/

/-- Bytes in a field of some width. -/
def padded (toLeft : Bool) (width : Nat) (b : List UInt8) : List UInt8 :=
  let blanks := List.replicate (width - b.length) 0x20
  if toLeft then b ++ blanks else blanks ++ b

/-- A number in a field: a sign or a mark of its base, and digits of at least a precision. -/
def numeral (flags : List Char) (width : Nat) (precision : Option Nat) (start : String)
    (digits : List Char) : List UInt8 :=
  let zeros (n : Nat) : List Char := List.replicate (n - digits.length) '0'
  let toLeft := flags.contains '-'
  let filling :=
    match precision with
    | some n => zeros n
    | none => if flags.contains '0' ∧ !toLeft then zeros (width - start.length) else []
  padded toLeft width (String.ofList (start.toList ++ filling ++ digits)).toUTF8.toList

/-- The digits of a number; zero has none if the precision is zero. -/
def digits (base n : Nat) (precision : Option Nat) : List Char :=
  if n = 0 ∧ precision = some 0 then [] else Nat.toDigits base n

/-- The bytes of a number with a sign. -/
def signed (flags : List Char) (width : Nat) (precision : Option Nat) (n : Int) : List UInt8 :=
  let start :=
    if n < 0 then "-"
    else if flags.contains '+' then "+"
    else if flags.contains ' ' then " "
    else ""
  numeral flags width precision start (digits 10 n.natAbs precision)

/-- The bytes of a number without a sign, in the base of a letter. -/
def unsigned (flags : List Char) (width : Nat) (precision : Option Nat) (letter : Char) (n : Nat) :
    List UInt8 :=
  let isMarked := flags.contains '#'
  match letter with
  | 'o' =>
    let ds := digits 8 n precision
    let takesZero := isMarked ∧ ds.head? ≠ some '0' ∧ precision.getD 0 ≤ ds.length
    numeral flags width precision "" (if takesZero then '0' :: ds else ds)
  | 'x' =>
    numeral flags width precision (if isMarked ∧ n ≠ 0 then "0x" else "") (digits 16 n precision)
  | 'X' =>
    numeral flags width precision (if isMarked ∧ n ≠ 0 then "0X" else "")
      ((digits 16 n precision).map Char.toUpper)
  | _ => numeral flags width precision "" (digits 10 n precision)

/-- The bytes of a number with a fraction, in the notation of a letter. -/
def floating (flags : List Char) (width : Nat) (precision : Option Nat) (letter : Char)
    (x : Binary64) : List UInt8 :=
  let keepsPoint := flags.contains '#'
  let inCase (c : Char) : Char := if letter.isUpper then c.toUpper else c
  let sign := Floating.sign x flags
  if !x.isFinite then
    padded (flags.contains '-') width
      (String.ofList ((sign ++ Floating.word x).toList.map inCase)).toUTF8.toList
  else
    let start := if letter.toLower = 'a' then sign ++ "0x" else sign
    let body :=
      match letter.toLower with
      | 'f' => Floating.fixed keepsPoint (precision.getD 6) x
      | 'e' => Floating.scientific keepsPoint (precision.getD 6) x
      | 'g' => Floating.general keepsPoint (precision.getD 6) x
      | _ => Floating.hexadecimal keepsPoint precision x
    numeral flags width none (String.ofList (start.toList.map inCase)) (body.map inCase)

/-- A size, which may be the next argument, as a number of 32 bits. -/
def takeSize (p : Progress) : Option Size → Option Int × Progress
  | none => (none, p)
  | some (.fixed n) => (some n, p)
  | some .given =>
    let (n, p) := takeSigned p
    (some (Int.bmod n (2 * (sizeLimit + 1))), p)

/-- The bytes of a text with escapes, and whether they cut what follows. -/
def escaped (text : String) : List UInt8 × Bool :=
  let b := Escape.bytes false text []
  (b, Escape.bytes false text [0x0A] = b)

/-- Prints the next argument at a place. -/
def fill (place : Place) (p : Progress) : Progress :=
  let (width, p) := takeSize p place.width
  let (precision, p) := takeSize p place.precision
  let precision := precision.bind fun n => if n < 0 then none else some n.toNat
  let flags := if width.any (· < 0) then '-' :: place.flags else place.flags
  let width := (width.getD 0).natAbs
  let text (b : List UInt8) : List UInt8 :=
    padded (flags.contains '-') width (match precision with | some n => b.take n | none => b)
  match place.letter with
  | 's' =>
    let (argument, p) := takeText p
    { p with bytes := p.bytes ++ text argument.toUTF8.toList }
  | 'b' =>
    let (argument, p) := takeText p
    let (b, isCut) := escaped argument
    { p with bytes := p.bytes ++ text b, isCut }
  | 'c' =>
    let (argument, p) := takeText p
    let b := [argument.toUTF8.toList.headD 0]
    { p with bytes := p.bytes ++ padded (flags.contains '-') width b }
  | letter =>
    if letter = 'd' ∨ letter = 'i' then
      let (n, p) := takeSigned p
      { p with bytes := p.bytes ++ signed flags width precision n }
    else if floatingLetters.contains letter then
      let (x, p) := takeFloating p
      { p with bytes := p.bytes ++ floating flags width precision letter x }
    else
      let (n, p) := takeUnsigned p
      { p with bytes := p.bytes ++ unsigned flags width precision letter n }

/-- Prints parts of a format one after another. -/
def printOnce (p : Progress) : List Piece → Progress
  | [] => p
  | piece :: rest =>
    let p :=
      match piece with
      | .bytes b => { p with bytes := p.bytes ++ b }
      | .place place => fill place p
      | .fault message => { p with fault := some message }
    if p.isCut ∨ p.fault.isSome then p else printOnce p rest

/-- Prints parts of a format again as long as arguments are left.  The number is not less than
theirs. -/
def printAgain (ps : List Piece) : Nat → Progress → Progress
  | 0, p => p
  | n + 1, p =>
    let after := printOnce p ps
    if after.isCut ∨ after.fault.isSome ∨ after.left.isEmpty ∨ after.left.length = p.left.length
    then after
    else printAgain ps n after

/-- Prints arguments by a format. -/
def print (format : String) (arguments : List String) : Progress :=
  printAgain (pieces (format.length + 1) format.toList) (arguments.length + 1) { left := arguments }

end SchemaModel.Shell.Format
