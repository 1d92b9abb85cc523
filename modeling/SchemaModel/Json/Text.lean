import SchemaModel.Json.Basic

/-!
# The text of a JSON value

`Json.text` writes a value without any space; `Json.indented` writes one member or element a line.
Both escape the quote, the backslash and the control characters in strings and nothing else.

* `quote` — a string between quotes;
* `Json.text` — the compact text;
* `Json.indented` — the text over several lines, two spaces a level.
-/

namespace SchemaModel.Json

/-- A character as it stands inside quotes. -/
def escapeChar (c : Char) : List Char :=
  match c with
  | '"' => ['\\', '"']
  | '\\' => ['\\', '\\']
  | '\n' => ['\\', 'n']
  | '\r' => ['\\', 'r']
  | '\t' => ['\\', 't']
  | '\x08' => ['\\', 'b']
  | '\x0c' => ['\\', 'f']
  | c =>
    if c.toNat < 0x20 then
      ['\\', 'u', '0', '0', Nat.digitChar (c.toNat / 16), Nat.digitChar (c.toNat % 16)]
    else [c]

/-- A string between quotes. -/
def quote (s : String) : String :=
  String.ofList ('"' :: s.toList.flatMap escapeChar ++ ['"'])

/-- Parts joined by commas. -/
def commaJoin (parts : List String) : String := ",".intercalate parts

mutual

/-- The compact text of a value. -/
def text : Json → String
  | .null => "null"
  | .bool true => "true"
  | .bool false => "false"
  | .number n => n.text
  | .string s => quote s
  | .array items => "[" ++ commaJoin (itemTexts items) ++ "]"
  | .object members => "\x7b" ++ commaJoin (memberTexts members) ++ "\x7d"
termination_by structural v => v

/-- The compact texts of the elements of an array. -/
def itemTexts : List Json → List String
  | [] => []
  | v :: rest => v.text :: itemTexts rest
termination_by structural vs => vs

/-- The compact texts of the members of an object. -/
def memberTexts : List (String × Json) → List String
  | [] => []
  | (key, v) :: rest => (quote key ++ ":" ++ v.text) :: memberTexts rest
termination_by structural ms => ms

end

/-- A line break and the indentation of a level. -/
def lineBreak (level : Nat) : String := "\n" ++ String.ofList (List.replicate (2 * level) ' ')

/-- Parts between brackets, each on its own line one level deeper. -/
def block (level : Nat) (opening closing : String) (parts : List String) : String :=
  if parts.isEmpty then opening ++ closing
  else
    opening ++ lineBreak (level + 1) ++ ("," ++ lineBreak (level + 1)).intercalate parts ++
      lineBreak level ++ closing

mutual

/-- The text of a value over several lines, its first line standing at a level. -/
def indentedAt (level : Nat) : Json → String
  | .array items => block level "[" "]" (indentedItems (level + 1) items)
  | .object members => block level "\x7b" "\x7d" (indentedMembers (level + 1) members)
  | v => v.text
termination_by structural v => v

/-- The elements of an array, each standing at a level. -/
def indentedItems (level : Nat) : List Json → List String
  | [] => []
  | v :: rest => indentedAt level v :: indentedItems level rest
termination_by structural vs => vs

/-- The members of an object, each standing at a level. -/
def indentedMembers (level : Nat) : List (String × Json) → List String
  | [] => []
  | (key, v) :: rest =>
    (quote key ++ ": " ++ indentedAt level v) :: indentedMembers level rest
termination_by structural ms => ms

end

/-- The text of a value over several lines, two spaces a level; empty containers stay on one
line. -/
def indented (v : Json) : String := indentedAt 0 v

end SchemaModel.Json
