import SchemaModel.Json.Text

/-!
# A JSON text for readers

A value stands on one line if it fits into the width there, and otherwise over several lines, one
member or element each, by the same rule.  A comma at the end of a line does not count.

* `Json.spaced` — the text on one line;
* `Json.fitted` — the text fitted into a width, two spaces a level.
-/

namespace SchemaModel.Json

mutual

/-- The text of a value on one line, with spaces after colons and commas and inside braces. -/
def spaced : Json → String
  | .array items => "[" ++ ", ".intercalate (spacedItems items) ++ "]"
  | .object members => "\x7b " ++ ", ".intercalate (spacedMembers members) ++ " \x7d"
  | v => v.text
termination_by structural v => v

/-- The elements of an array on one line. -/
def spacedItems : List Json → List String
  | [] => []
  | v :: rest => v.spaced :: spacedItems rest
termination_by structural vs => vs

/-- The members of an object on one line. -/
def spacedMembers : List (String × Json) → List String
  | [] => []
  | (key, v) :: rest => (quote key ++ ": " ++ v.spaced) :: spacedMembers rest
termination_by structural ms => ms

end

mutual

/-- The text of a value after a label, on a line that starts at a level. -/
def fittedAt (width level : Nat) (label : String) (v : Json) : String :=
  let line := label ++ v.spaced
  match v with
  | .array items =>
    if 2 * level + line.length ≤ width then line
    else label ++ block level "[" "]" (fittedItems width (level + 1) items)
  | .object members =>
    if 2 * level + line.length ≤ width then line
    else label ++ block level "\x7b" "\x7d" (fittedMembers width (level + 1) members)
  | _ => line
termination_by structural v

/-- The elements of an array, each on lines of its own that start at a level. -/
def fittedItems (width level : Nat) : List Json → List String
  | [] => []
  | v :: rest => fittedAt width level "" v :: fittedItems width level rest
termination_by structural vs => vs

/-- The members of an object, each on lines of its own that start at a level. -/
def fittedMembers (width level : Nat) : List (String × Json) → List String
  | [] => []
  | (key, v) :: rest =>
    fittedAt width level (quote key ++ ": ") v :: fittedMembers width level rest
termination_by structural ms => ms

end

/-- The text of a value, fitted into a width. -/
def fitted (width : Nat) (v : Json) : String := fittedAt width 0 "" v

end SchemaModel.Json
