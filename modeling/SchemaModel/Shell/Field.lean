/-!
# Parting a replaced word into fields

What has been inserted into a word comes in stretches, each the value of one parameter or the output
of one command.  Separators part fields within the stretches outside quotes only; blank ones around
another one go with it, and so do those at the start.  The arguments of a shell are parted in any
case: outside quotes as by a blank, within quotes even if one of them is empty.

* `Item` — a word after its parts have been replaced;
* `Field.Splitting` — the fields so far;
* `Field.split` — the fields of a replaced word.
-/

namespace SchemaModel.Shell

/-- A character of a replaced word, a text that counts though it may be empty, the start of what has
been inserted, or a place there between two arguments. -/
inductive Item where
  | cell (c : Char) (quoted inserted : Bool)
  | mark
  | stretch (quoted : Bool)
  | cut
deriving DecidableEq, Repr

/-- A character of a field, and whether it has been quoted. -/
abbrev Cell := Char × Bool

namespace Field

/-- The cells of items. -/
def cellsOf (items : List Item) : List Cell :=
  items.filterMap fun
    | .cell c quoted _ => some (c, quoted)
    | .mark | .stretch _ | .cut => none

/-- The text of cells. -/
def textOf (cells : List Cell) : String := String.ofList (cells.map (·.1))

/-- The fields so far, the last one first, and the one that has begun, in reverse.  A separator may
still go with the one before it, within a stretch; it is known whether that one is within quotes and
whether the one before was. -/
structure Splitting where
  fields : List (List Cell) := []
  begun : Option (List Cell) := none
  afterBlank : Bool := false
  inQuotes : Bool := false
  afterQuotes : Bool := false

namespace Splitting

/-- A field goes on. -/
def push (p : Splitting) (c : Char) (quoted : Bool) : Splitting :=
  { p with begun := some ((c, quoted) :: p.begun.getD []), afterBlank := false }

/-- A field ends. -/
def close (p : Splitting) : Splitting :=
  { p with fields := (p.begun.getD []).reverse :: p.fields, begun := none }

/-- A separator parts fields. -/
def part (p : Splitting) (isBlank : Bool) : Splitting :=
  if p.afterBlank then { p with afterBlank := isBlank }
  else
    let startsBlank := if p.inQuotes ∨ p.afterQuotes then p.afterBlank else isBlank
    if p.begun.isNone ∧ startsBlank then p else { p.close with afterBlank := startsBlank }

/-- The fields after one more item. -/
def step (separators : List Char) (p : Splitting) : Item → Splitting
  | .stretch quoted =>
    { p with inQuotes := quoted, afterQuotes := p.inQuotes, afterBlank := false }
  | .mark => { p with begun := some (p.begun.getD []) }
  | .cut => p.part true
  | .cell c quoted inserted =>
    if inserted ∧ !p.inQuotes ∧ separators.contains c then
      p.part (c = ' ' || c = '\t' || c = '\n')
    else p.push c quoted

/-- All fields at the end. -/
def finish (p : Splitting) : List (List Cell) :=
  (if p.begun.isSome ∨ p.inQuotes then p.close else p).fields.reverse

end Splitting

/-- The fields of a replaced word. -/
def split (separators : List Char) (items : List Item) : List (List Cell) :=
  (items.foldl (Splitting.step separators) {}).finish

end Field

end SchemaModel.Shell
