import SchemaModel.FileTree.Basic
import SchemaModel.Shell.Field
import SchemaModel.Shell.Pattern

/-!
# Wildcards

A field with wildcards is replaced by the paths that it matches, if there are any.  A wildcard
matches neither a slash nor a dot at the start of a name.

* `Wildcard.pattern` — the pattern of a field;
* `Wildcard.matching` — the texts that a field stands for.
-/

namespace SchemaModel.Shell.Wildcard

open SchemaModel.Shell.Field (textOf)

/-- The pattern of a field, in which what is quoted stands for itself. -/
def pattern (cells : List Cell) : List Pattern.Token :=
  Pattern.ofBytes (cells.flatMap fun cell => cell.1.toString.toUTF8.toList.map (·, cell.2))

/-- Whether a field holds wildcards. -/
def isPattern (cells : List Cell) : Bool := Pattern.isVaried (pattern cells)

/-- The names in a directory that a part of a path matches. -/
def names (t : FileTree) (base : String) (cells : List Cell) : List String :=
  if isPattern cells then
    let ts := pattern cells
    let isHidden (name : String) : Bool := name.toList.head? == some '.'
    let showsHidden := ts.head? == some (.byte 0x2E)
    let directory := if base = "" then "." else base
    let entries := (t.entriesAt directory).map (·.1)
    let dots := if t.hasDirectory directory then [".", ".."] else []
    (dots ++ entries).filter fun name =>
      (showsHidden || !isHidden name) && Pattern.fits ts name.toUTF8.toList
  else if t.hasEntry (base ++ textOf cells) then [textOf cells]
  else []

/-- The paths below a path that the parts of another one match. -/
def paths (t : FileTree) (base : String) : List (List Cell) → List String
  | [] => []
  | [last] => (names t base last).map (base ++ ·)
  | first :: rest =>
    let below := (names t base first).map (base ++ ·)
    (below.filter t.hasDirectory).flatMap fun path => paths t (path ++ "/") rest

/-- The parts of a field between slashes. -/
def splitSlashes : List Cell → List (List Cell)
  | [] => [[]]
  | cell :: rest =>
    if cell.1 = '/' then [] :: splitSlashes rest
    else
      match splitSlashes rest with
      | [] => [[cell]]
      | first :: others => (cell :: first) :: others

/-- The texts that a field stands for. -/
def matching (t : FileTree) (cells : List Cell) : List String :=
  let found :=
    if isPattern cells then
      match splitSlashes cells with
      | [] :: rest => paths t "/" rest
      | parts => paths t "" parts
    else []
  if found.isEmpty then [textOf cells]
  else found.mergeSort fun a b => decide (a ≤ b)

end SchemaModel.Shell.Wildcard
