/-!
# Where a text occurs in another

Occurrences are found from left to right over the characters.

* `isInfix` — whether a text occurs in another;
* `replace` — every occurrence replaced, none overlapping;
* `beforeLast?` — the text before the last occurrence.
-/

namespace SchemaModel.Text

/-- Whether one list of characters occurs in another without a gap. -/
def isInfix (part : List Char) : List Char → Bool
  | [] => part.isEmpty
  | c :: rest => part.isPrefixOf (c :: rest) || isInfix part rest

/-- Whether a text occurs in another. -/
def occursIn (part whole : String) : Bool := isInfix part.toList whole.toList

/-- Replaces every occurrence of a part; `skip` characters of an occurrence already replaced are
still to be passed over. -/
def replaceFrom (part replacement : List Char) (skip : Nat) : List Char → List Char
  | [] => []
  | c :: rest =>
    match skip with
    | n + 1 => replaceFrom part replacement n rest
    | 0 =>
      if part.isPrefixOf (c :: rest) then
        replacement ++ replaceFrom part replacement (part.length - 1) rest
      else c :: replaceFrom part replacement 0 rest

/-- Replaces every occurrence of a non-empty part. -/
def replace (part replacement whole : String) : String :=
  String.ofList (replaceFrom part.toList replacement.toList 0 whole.toList)

/-- What stands before the last occurrence of a part. -/
def beforeLast? (part : List Char) : List Char → Option (List Char)
  | [] => if part.isEmpty then some [] else none
  | c :: rest =>
    match beforeLast? part rest with
    | some before => some (c :: before)
    | none => if part.isPrefixOf (c :: rest) then some [] else none

end SchemaModel.Text
