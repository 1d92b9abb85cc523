import SchemaModel.Binary64.Arithmetic
import SchemaModel.Json.Basic
import SchemaModel.Json.SyntaxError

/-!
# The tokens of a JSON text

A text is cut into tokens by a machine that reads one character at a time, so `tokens` is a fold
over the text.  The first piece of text that begins no token ends the list with a `broken` token;
whoever reads the tokens decides, from what it expects there, which error that is.

A string can be complete and still have no content, through an unpaired surrogate escape, and a
number can be complete and out of range; both are found out only by a reader that wants the value.
A reader that skips a value does not, so broken tokens carry one error for either kind of reader.

* `Token` — the tokens;
* `Numeral.value?` — the number that a numeral stands for;
* `Scan.step` — the machine;
* `tokens` — the tokens of a text.
-/

namespace SchemaModel.Json

/-- A token.  The two errors of a broken one are for reading the value and for skipping it. -/
inductive Token where
  | openArray
  | closeArray
  | openObject
  | closeObject
  | comma
  | colon
  | null
  | bool (b : Bool)
  | number (value : Option Number)
  | string (content : Except SyntaxError String)
  | brokenString (reading skipping : SyntaxError)
  | broken (reading skipping : SyntaxError)

/-! ### Numerals -/

/-- The parts of a written number; `digits` holds the whole and the fraction digits. -/
structure Numeral where
  negative : Bool := false
  digits : Nat := 0
  fractionDigits : Nat := 0
  integral : Bool := true
  exponentNegative : Bool := false
  exponentDigits : Nat := 0
deriving Repr, Inhabited

namespace Numeral

/-- Number of digits of a whole part that are left out so that the others are below `2 ^ 64`: all
numbers of 19 digits are, and some of 20. -/
def surplusDigits (whole : Nat) : Nat :=
  let excess := (Nat.toDigits 10 whole).length - 20
  if whole / Nat.pow 10 excess < Nat.pow 2 64 then excess else excess + 1

/-- Appends fraction digits, given as a number and how many there are, while the significand stays
below `2 ^ 64`; with the number of digits that have been appended. -/
def appendDigits (significand fraction : Nat) : Nat → Nat × Nat
  | 0 => (significand, 0)
  | count + 1 =>
    let longer := significand * 10 + fraction / Nat.pow 10 count % 10
    if longer < Nat.pow 2 64 then
      let (significand, appended) := appendDigits longer fraction count
      (significand, appended + 1)
    else (significand, 0)

/-- The significand of a numeral and the power of ten that it counts, the written exponent left
out.  The digits that do not fit are left out too. -/
def scaled (n : Numeral) : Nat × Int :=
  let whole := n.digits / Nat.pow 10 n.fractionDigits
  let surplus := surplusDigits whole
  let (significand, appended) :=
    appendDigits (whole / Nat.pow 10 surplus) (n.digits % Nat.pow 10 n.fractionDigits)
      n.fractionDigits
  (significand, surplus - appended)

/-- Divides by `10 ^ 308` several times, or until there is nothing left. -/
def lowered (x : Binary64) : Nat → Binary64
  | 0 => x
  | count + 1 =>
    if x.isZero then x else lowered (x.dividedBy (Binary64.ofNat (Nat.pow 10 308))) count

/-- A number times a power of ten.  The powers up to `10 ^ 308` are rounded themselves, so this is
not always the number nearest to the exact product. -/
def timesPowerOfTen (x : Binary64) (exponent : Int) : Binary64 :=
  let power (k : Nat) : Binary64 := Binary64.ofNat (Nat.pow 10 k)
  if 0 ≤ exponent then
    if exponent ≤ 308 then x.times (power exponent.toNat)
    else if x.isZero then x
    else Binary64.ofCode false Binary64.infinityCode
  else
    let places := (-exponent).toNat
    let steps := (places - 1) / 308
    (lowered x steps).dividedBy (power (places - 308 * steps))

/-- The magnitude of a numeral, infinite if it is out of range.  A written exponent that is no
integer of 32 bits is not looked at any further. -/
def magnitude (n : Numeral) : Binary64 :=
  let (significand, exponent) := n.scaled
  let zero := Binary64.ofNat 0
  if Nat.pow 2 31 ≤ n.exponentDigits then
    if significand = 0 ∨ n.exponentNegative then zero
    else Binary64.ofCode false Binary64.infinityCode
  else
    let written : Int := if n.exponentNegative then -(n.exponentDigits : Int) else n.exponentDigits
    timesPowerOfTen (Binary64.ofNat significand) (exponent + written)

/-- The 64-bit number that a numeral is read as, unless it is out of range. -/
def float? (n : Numeral) : Option Number :=
  let x := Binary64.withSign n.negative n.magnitude
  if x.isFinite then some (.float x) else none

/-- The number a numeral stands for.  Without fraction and exponent it is an integer if it is
below `2 ^ 64` and not below `-2 ^ 63`; minus zero is no integer. -/
def value? (n : Numeral) : Option Number :=
  if n.integral then
    if !n.negative ∧ n.digits < Nat.pow 2 64 then some (.int n.digits)
    else if n.negative ∧ 0 < n.digits ∧ n.digits ≤ Nat.pow 2 63 then some (.int (-(n.digits : Int)))
    else n.float?
  else n.float?

end Numeral

/-- How far a numeral has been read, named for its last character. -/
inductive NumeralPart where
  | minus
  | zero
  | whole
  | point
  | fraction
  | mark
  | markSign
  | exponent
deriving DecidableEq, Repr

/-- The value of a decimal digit. -/
def digit? (c : Char) : Option Nat :=
  if c.isDigit then some (c.toNat - '0'.toNat) else none

/-- The value of a hexadecimal digit. -/
def hexDigit? (c : Char) : Option Nat :=
  if c.isDigit then some (c.toNat - '0'.toNat)
  else if 'a' ≤ c ∧ c ≤ 'f' then some (c.toNat - 'a'.toNat + 10)
  else if 'A' ≤ c ∧ c ≤ 'F' then some (c.toNat - 'A'.toNat + 10)
  else none

/-- What the next character does to a numeral. -/
inductive NumeralStep where
  | more (part : NumeralPart) (n : Numeral)
  | finished
  | invalid

/-- Reads one more character of a numeral. -/
def NumeralPart.step (part : NumeralPart) (n : Numeral) (c : Char) : NumeralStep :=
  let isMark := c = 'e' || c = 'E'
  let exponentStep (d : Nat) : NumeralStep :=
    .more .exponent { n with exponentDigits := n.exponentDigits * 10 + d }
  match part, digit? c with
  | .minus, some 0 => .more .zero n
  | .minus, some d => .more .whole { n with digits := d }
  | .minus, none => .invalid
  | .zero, some _ => .invalid
  | .whole, some d => .more .whole { n with digits := n.digits * 10 + d }
  | .zero, none | .whole, none =>
    if c = '.' then .more .point { n with integral := false }
    else if isMark then .more .mark { n with integral := false }
    else .finished
  | .point, some d | .fraction, some d =>
    .more .fraction { n with digits := n.digits * 10 + d, fractionDigits := n.fractionDigits + 1 }
  | .point, none => .invalid
  | .fraction, none => if isMark then .more .mark n else .finished
  | .mark, some d | .markSign, some d | .exponent, some d => exponentStep d
  | .mark, none =>
    if c = '+' then .more .markSign n
    else if c = '-' then .more .markSign { n with exponentNegative := true }
    else .invalid
  | .markSign, none => .invalid
  | .exponent, none => .finished

/-- Whether a numeral may end after this part. -/
def NumeralPart.complete : NumeralPart → Bool
  | .zero | .whole | .fraction | .exponent => true
  | .minus | .point | .mark | .markSign => false

/-! ### Strings -/

/-- Where in a string the next character stands; in a `\u` escape, with the bytes seen and the
value of the digits so far. -/
inductive StringPhase where
  | plain
  | escape
  | hex (seen : Nat) (value : Option Nat)
deriving DecidableEq, Repr

/-- A string being read: its characters in reverse, or the first error of its content, and a
leading surrogate that waits for its other half. -/
structure StringScan where
  content : Except SyntaxError (List Char) := .ok []
  pending : Option Nat := none
  phase : StringPhase := .plain

/-- What the next character does to a string. -/
inductive StringStep where
  | more (s : StringScan)
  | closed (content : Except SyntaxError String)
  | broken (reading skipping : SyntaxError)

namespace StringScan

/-- Records an error of the content; the first one stays. -/
def fail (s : StringScan) (e : SyntaxError) : StringScan :=
  { s with content := s.content.bind fun _ => .error e, pending := none }

/-- A leading surrogate that is not followed by an escape. -/
def settle (s : StringScan) : StringScan :=
  if s.pending.isSome then s.fail .unfinishedSurrogate else s

/-- Adds a character and goes on outside an escape. -/
def push (s : StringScan) (c : Char) : StringScan :=
  { s with content := s.content.map (c :: ·), phase := .plain }

/-- Ends the token by an error; an earlier error of the content comes first in reading. -/
def breakOff (s : StringScan) (e : SyntaxError) : StringStep :=
  match s.content with
  | .ok _ => .broken e e
  | .error first => .broken first e

/-- The value of a finished `\u` escape: a character, or half of a surrogate pair. -/
def pushUnit (s : StringScan) (u : Nat) : StringScan :=
  let s := { s with phase := .plain }
  let leading := 0xD800 ≤ u ∧ u ≤ 0xDBFF
  let trailing := 0xDC00 ≤ u ∧ u ≤ 0xDFFF
  match s.pending with
  | some high =>
    if trailing then
      { s with pending := none }.push
        (Char.ofNat (0x10000 + (high - 0xD800) * 0x400 + (u - 0xDC00)))
    else s.fail .loneSurrogate
  | none =>
    if trailing then s.fail .loneSurrogate
    else if leading then { s with pending := some u }
    else s.push (Char.ofNat u)

/-- The character of a one-letter escape. -/
def escaped? : Char → Option Char
  | '"' => some '"'
  | '\\' => some '\\'
  | '/' => some '/'
  | 'b' => some '\x08'
  | 'f' => some '\x0c'
  | 'n' => some '\n'
  | 'r' => some '\r'
  | 't' => some '\t'
  | _ => none

/-- Reads one more character of a string.  A `\u` escape takes the next four bytes, whatever
characters they belong to. -/
def step (s : StringScan) (c : Char) : StringStep :=
  match s.phase with
  | .plain =>
    if c = '\\' then .more { s with phase := .escape }
    else
      let s := s.settle
      if c = '"' then .closed (s.content.map fun cs => String.ofList cs.reverse)
      else if c.toNat < 0x20 then s.breakOff .controlCharacter
      else .more (s.push c)
  | .escape =>
    if c = 'u' then .more { s with phase := .hex 0 (some 0) }
    else
      let s := s.settle
      match escaped? c with
      | some d => .more (s.push d)
      | none => s.breakOff .invalidEscape
  | .hex seen value =>
    let seen := seen + c.utf8Size
    let value := value.bind fun v => (hexDigit? c).map (v * 16 + ·)
    if seen < 4 then .more { s with phase := .hex seen value }
    else match value with
      | some v => .more (s.pushUnit v)
      | none => s.breakOff .invalidEscape

end StringScan

/-! ### The machine -/

/-- What is being read. -/
inductive Scan where
  | between
  | word (left : List Char) (token : Token)
  | numeral (part : NumeralPart) (n : Numeral)
  | string (s : StringScan)
  | halted

namespace Scan

/-- Reads a character outside every token.  White space is space, tab, line feed and carriage
return. -/
def start (c : Char) : List Token × Scan :=
  match c with
  | ' ' | '\t' | '\n' | '\r' => ([], .between)
  | '[' => ([.openArray], .between)
  | ']' => ([.closeArray], .between)
  | '\x7b' => ([.openObject], .between)
  | '\x7d' => ([.closeObject], .between)
  | ',' => ([.comma], .between)
  | ':' => ([.colon], .between)
  | 'n' => ([], .word ['u', 'l', 'l'] .null)
  | 't' => ([], .word ['r', 'u', 'e'] (.bool true))
  | 'f' => ([], .word ['a', 'l', 's', 'e'] (.bool false))
  | '"' => ([], .string {})
  | '-' => ([], .numeral .minus { negative := true })
  | c =>
    match digit? c with
    | some 0 => ([], .numeral .zero {})
    | some d => ([], .numeral .whole { digits := d })
    | none => ([.broken .expectedValue .expectedValue], .halted)

/-- Reads one character: the tokens it completes and what is read next. -/
def step : Scan → Char → List Token × Scan
  | .between, c => start c
  | .word [] token, c => let (ts, next) := start c; (token :: ts, next)
  | .word (l :: left) token, c =>
    if c = l then
      if left.isEmpty then ([token], .between) else ([], .word left token)
    else ([.broken .expectedWord .expectedWord], .halted)
  | .numeral part n, c =>
    match part.step n c with
    | .more part n => ([], .numeral part n)
    | .finished => let (ts, next) := start c; (.number n.value? :: ts, next)
    | .invalid => ([.broken .invalidNumber .invalidNumber], .halted)
  | .string s, c =>
    match s.step c with
    | .more s => ([], .string s)
    | .closed content => ([.string content], .between)
    | .broken reading skipping => ([.brokenString reading skipping], .halted)
  | .halted, _ => ([], .halted)

/-- The token that the end of the text completes or breaks off. -/
def finish : Scan → List Token
  | .between | .halted => []
  | .word _ _ => [.broken .endInValue .endInValue]
  | .numeral part n =>
    if part.complete then [.number n.value?] else [.broken .endInValue .invalidNumber]
  | .string s =>
    match s.content with
    | .ok _ => [.brokenString .endInString .endInString]
    | .error first => [.brokenString first .endInString]

/-- Reads one character, with the tokens so far in reverse. -/
def advance (state : Scan × List Token) (c : Char) : Scan × List Token :=
  let (ts, next) := state.1.step c
  (next, ts.reverse ++ state.2)

end Scan

/-- The tokens of a text. -/
def tokens (text : List Char) : List Token :=
  let (last, done) := text.foldl Scan.advance (.between, [])
  done.reverse ++ last.finish

end SchemaModel.Json
