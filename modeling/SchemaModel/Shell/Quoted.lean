/-!
# Names in the messages of tools

A name that a shell would take apart is shown between single quotes, or double ones if it holds a
single quote and nothing else that asks for them.  Bytes that cannot be seen are shown by a letter
or by three octal digits in a part of their own, which opens with a dollar sign.

* `Quoted.name` — a name between quotes;
* `Quoted.nameIfNeeded` — a name between quotes if it needs them.
-/

namespace SchemaModel.Shell.Quoted

/-- Whether a character cannot be seen as it is. -/
def isUnseen (c : Char) : Bool := c.toNat < 0x20 || 0x7F ≤ c.toNat

/-- Characters that ask for quotes wherever they stand. -/
def special : List Char := " !\"$&'()*:;<=>?[\\^`|".toList

/-- Characters that ask for quotes at the start of a name. -/
def specialAtStart : List Char := ['#', '~']

/-- Whether a name needs quotes. -/
def needsQuotes (name : List Char) : Bool :=
  match name with
  | [] => true
  | first :: _ =>
    name.any (fun c => isUnseen c || special.contains c) || specialAtStart.contains first ||
      name == ['\x7b'] || name == ['\x7d']

/-- Whether a character may stand between double quotes. -/
def isMild (c : Char) : Bool := c.isAlphanum || " %'+,-./:@]_".toList.contains c

/-- Whether a name goes between double quotes. -/
def takesDoubleQuotes (name : List Char) : Bool :=
  match name with
  | [] => false
  | first :: rest =>
    name.contains '\'' && (isMild first || specialAtStart.contains first) && rest.all isMild

/-- A byte that cannot be seen. -/
def escaped (b : UInt8) : List Char :=
  let digit (n : Nat) : Char := Nat.digitChar (n % 8)
  let n := b.toNat
  '\\' ::
    match n with
    | 0x07 => ['a']
    | 0x08 => ['b']
    | 0x09 => ['t']
    | 0x0A => ['n']
    | 0x0B => ['v']
    | 0x0C => ['f']
    | 0x0D => ['r']
    | _ => [digit (n / 64), digit (n / 8), digit n]

/-- Characters between single quotes; the flag says whether a part of unseen ones is open. -/
def inside (unseen : Bool) : List Char → List Char
  | [] => []
  | c :: rest =>
    if isUnseen c then
      (if unseen then [] else "'$'".toList) ++ c.toString.toUTF8.toList.flatMap escaped ++
        inside true rest
    else
      let mark := if c = '\'' then "'\\''".toList else if unseen then ['\'', '\'', c] else [c]
      mark ++ inside false rest

/-- A name between quotes. -/
def name (s : String) : String :=
  let cs := s.toList
  if takesDoubleQuotes cs then "\"" ++ s ++ "\""
  else String.ofList ('\'' :: inside false cs ++ ['\''])

/-- A name between quotes if it needs them. -/
def nameIfNeeded (s : String) : String := if needsQuotes s.toList then name s else s

end SchemaModel.Shell.Quoted
