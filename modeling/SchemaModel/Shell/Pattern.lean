/-!
# Patterns

A pattern is matched byte by byte.  A star stands for any bytes, a question mark for one, and a list
in brackets for one that is in it, or that is not if the list starts with an exclamation mark.  A
byte that has been quoted, or that a backslash stands before, stands for itself, and so does a
bracket that is not closed.

* `Pattern.Token` — the parts of a pattern;
* `Pattern.ofBytes` — a text read as a pattern;
* `Pattern.fits` — whether a pattern stands for a text.
-/

namespace SchemaModel.Shell

namespace Pattern

/-- A byte of a pattern, and whether it has been quoted. -/
abbrev Cell := UInt8 × Bool

/-- An element of a list in brackets. -/
inductive Element where
  | range (first last : UInt8)
  | named (name : String)
deriving DecidableEq, Repr

/-- A part of a pattern. -/
inductive Token where
  | byte (b : UInt8)
  | anyByte
  | anyBytes
  | oneOf (inverted : Bool) (elements : List Element)
deriving DecidableEq, Repr

/-! ### Reading -/

/-- Bytes of which one after a backslash counts as quoted. -/
def unescaped : List Cell → List Cell
  | (0x5C, false) :: (b, _) :: rest => (b, true) :: unescaped rest
  | (0x5C, false) :: [] => [(0x5C, true)]
  | cell :: rest => cell :: unescaped rest
  | [] => []

/-- The names of the classes of bytes. -/
def classNames : List String :=
  ["alnum", "cntrl", "lower", "space", "alpha", "digit", "print", "upper", "blank", "graph",
    "punct", "xdigit"]

/-- A text whose bytes are not quoted. -/
def bare (text : String) : List Cell := text.toUTF8.toList.map (·, false)

/-- The name of the class at the start of a pattern, after a bracket, and the number of bytes that
it takes. -/
def class? (cells : List Cell) : Option (String × Nat) :=
  classNames.findSome? fun name =>
    let text := bare (":" ++ name ++ ":]")
    if text.isPrefixOf cells then some (name, text.length) else none

/-- The element of a list that a byte starts, and the number of bytes after it that belong to it. -/
def element (cell : Cell) (rest : List Cell) : Element × Nat :=
  let named? := if cell = (0x5B, false) then class? rest else none
  match named?, rest with
  | some (name, n), _ => (.named name, n)
  | none, (0x2D, false) :: last :: _ =>
    if last = (0x5D, false) then (.range cell.1 cell.1, 0) else (.range cell.1 last.1, 2)
  | none, _ => (.range cell.1 cell.1, 0)

/-- The elements of a list up to its closing bracket, and the bytes after it.  A bracket at the
start is an element.  The number is not less than that of the bytes. -/
def elements? : Nat → Bool → List Cell → Option (List Element × List Cell)
  | fuel + 1, atStart, cell :: rest =>
    if cell = (0x5D, false) ∧ !atStart then some ([], rest)
    else
      let (e, n) := element cell rest
      (elements? fuel false (rest.drop n)).map fun r => (e :: r.1, r.2)
  | _, _, _ => none

/-- The parts of a pattern.  The number is not less than that of its bytes. -/
def tokens : Nat → List Cell → List Token
  | 0, _ | _, [] => []
  | fuel + 1, (0x2A, false) :: rest => .anyBytes :: tokens fuel rest
  | fuel + 1, (0x3F, false) :: rest => .anyByte :: tokens fuel rest
  | fuel + 1, (0x5B, false) :: rest =>
    let inverted := rest.head? == some (0x21, false)
    match elements? rest.length true (if inverted then rest.drop 1 else rest) with
    | some (es, after) => .oneOf inverted es :: tokens fuel after
    | none => .byte 0x5B :: tokens fuel rest
  | fuel + 1, (b, _) :: rest => .byte b :: tokens fuel rest

/-- A text read as a pattern. -/
def ofBytes (cells : List Cell) : List Token := tokens cells.length (unescaped cells)

/-- Whether a pattern stands for more than one text. -/
def isVaried (ts : List Token) : Bool := ts.any fun
  | .byte _ => false
  | .anyByte | .anyBytes | .oneOf _ _ => true

/-! ### Matching -/

/-- Whether a byte is in a class. -/
def isInClass (name : String) (b : UInt8) : Bool :=
  let c := Char.ofNat b.toNat
  let isGraphic := 0x20 < b && b < 0x7F
  match name with
  | "alnum" => c.isAlphanum
  | "alpha" => c.isAlpha
  | "digit" => c.isDigit
  | "lower" => c.isLower
  | "upper" => c.isUpper
  | "xdigit" => c.isDigit || ('a' ≤ c && c ≤ 'f') || ('A' ≤ c && c ≤ 'F')
  | "blank" => c = ' ' || c = '\t'
  | "space" => c = ' ' || (0x09 ≤ b && b ≤ 0x0D)
  | "cntrl" => b < 0x20 || b = 0x7F
  | "print" => c = ' ' || isGraphic
  | "graph" => isGraphic
  | "punct" => isGraphic && !c.isAlphanum
  | _ => false

/-- A byte in the order of ranges, in which the upper half comes first. -/
def rank (b : UInt8) : Nat := (b.toNat + 128) % 256

/-- Whether a byte is in an element of a list. -/
def Element.holds (b : UInt8) : Element → Bool
  | .range first last => rank first ≤ rank b && rank b ≤ rank last
  | .named name => isInClass name b

/-- For every end of a text, whether the first byte there passes a test and the rest of a pattern
stands for what follows it. -/
def afterByte (passes : UInt8 → Bool) : List UInt8 → List Bool → List Bool
  | b :: text, _ :: fitting =>
    (passes b && fitting.headD false) :: afterByte passes text fitting
  | _, _ => [false]

/-- For every end of a text, whether a pattern stands for it, given that for the rest of the
pattern. -/
def Token.fitting (text : List UInt8) (t : Token) (rest : List Bool) : List Bool :=
  match t with
  | .byte b => afterByte (· == b) text rest
  | .anyByte => afterByte (fun _ => true) text rest
  | .anyBytes => rest.foldr (fun fits after => (fits || after.headD false) :: after) []
  | .oneOf inverted es => afterByte (fun b => es.any (·.holds b) != inverted) text rest

/-- Whether a pattern stands for a text. -/
def fits (ts : List Token) (text : List UInt8) : Bool :=
  let atEnd := text.map (fun _ => false) ++ [true]
  (ts.foldr (·.fitting text ·) atEnd).headD false

end Pattern

end SchemaModel.Shell
