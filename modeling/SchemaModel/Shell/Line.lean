/-!
# The fields of a line

A line is cut into as many fields as are asked for, the last of which takes what is left.  Blank
separators count as one, together with one that is not blank.  After a backslash a character does
not part fields.

* `Line.Cell.ofLine` — a line with what backslashes make of it;
* `Line.fields` — the fields of a line.
-/

namespace SchemaModel.Shell.Line

/-- A character of a line, or what a backslash makes of the one after it: a character that stands for
itself, or none where the line goes on with the next. -/
inductive Cell where
  | plain (c : Char)
  | escaped (c : Option Char)
deriving DecidableEq, Repr

namespace Cell

/-- The cells of a line. -/
def ofLine : List Char → List Cell
  | '\\' :: '\n' :: rest => .escaped none :: ofLine rest
  | '\\' :: c :: rest => .escaped (some c) :: ofLine rest
  | ['\\'] => []
  | c :: rest => .plain c :: ofLine rest
  | [] => []

/-- The character of a cell, if it has one. -/
def char? : Cell → Option Char
  | .plain c => some c
  | .escaped c => c

/-- The text of cells. -/
def text (cells : List Cell) : String := String.ofList (cells.filterMap char?)

/-- Whether a cell parts fields. -/
def parts (separators : List Char) : Cell → Bool
  | .plain c => separators.contains c
  | .escaped _ => false

/-- Whether a cell parts fields together with others beside it. -/
def isBlank (separators : List Char) (cell : Cell) : Bool :=
  cell.parts separators && cell.char?.any (" \t\n".toList.contains ·)

/-- Whether a cell may stand before a field. -/
def isBefore (separators : List Char) (cell : Cell) : Bool :=
  cell.isBlank separators || cell.char?.isNone

end Cell

/-- The first field of a line and what is left after the separator that ends it. -/
def first (separators : List Char) (cells : List Cell) :
    List Cell × List Cell :=
  let rest := (cells.dropWhile (!·.parts separators)).dropWhile (·.isBlank separators)
  let rest :=
    match rest with
    | cell :: more => if cell.parts separators then more else rest
    | [] => []
  (cells.takeWhile (!·.parts separators), rest)

/-- How a line has been read that is the last of some fields: where it may end, whether a separator
has been found, and whether a blank one stands just before. -/
structure Ending where
  stop : Option Nat := none
  isParted : Bool := false
  afterBlank : Bool := false

/-- The last field after one more cell, at some place.  It ends before the separators at its end, of
which only one is not blank; a backslash and what is after it do not count. -/
def Ending.step (separators : List Char) (e : Ending) (cell : Cell) (place : Nat) : Ending :=
  let parts := cell.parts separators
  let isBlank := cell.isBlank separators
  match cell with
  | .escaped _ => { e with afterBlank := false }
  | .plain _ =>
    if !e.isParted then
      { stop := if parts then some place else none, isParted := parts, afterBlank := isBlank }
    else if isBlank then { e with stop := e.stop <|> some place }
    else { e with stop := if parts && e.afterBlank then e.stop else none, afterBlank := false }

/-- The last field of a line. -/
def last (separators : List Char) (cells : List Cell) : List Cell :=
  let e : Ending := cells.zipIdx.foldl (fun e p => e.step separators p.1 p.2) {}
  e.stop.elim cells cells.take

/-- A line cut into fields, the last of some number of which takes what is left. -/
def fields (separators : List Char) (count : Nat) (cells : List Cell) : List String :=
  let cells := cells.dropWhile (·.isBefore separators)
  match count with
  | 0 => []
  | 1 => [Cell.text (last separators cells)]
  | count + 2 =>
    let (start, rest) := first separators cells
    Cell.text start :: fields separators (count + 1) rest

end SchemaModel.Shell.Line
