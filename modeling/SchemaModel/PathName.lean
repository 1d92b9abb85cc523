import SchemaModel.Text.Substring

/-!
# Path names

A path name is a text of components parted by slashes.  Joining and taking the last component work
on the text alone; nothing is normalized and no file is looked at.

* `PathName.parts` — the texts between the slashes;
* `PathName.fileName?` — the last component, if it names a file;
* `PathName.join` — a path below another;
* `PathName.upwards` — a path and those above it.
-/

namespace SchemaModel.PathName

/-- The texts between the slashes, as characters; there is always a first one. -/
def splitSlashes : List Char → List (List Char)
  | [] => [[]]
  | c :: rest =>
    if c = '/' then [] :: splitSlashes rest
    else
      match splitSlashes rest with
      | [] => [[c]]
      | first :: others => (c :: first) :: others

/-- The texts between the slashes. -/
def parts (path : String) : List String := (splitSlashes path.toList).map String.ofList

/-- Whether a path starts at the root of all files. -/
def isAbsolute (path : String) : Bool := path.toList.head? == some '/'

/-- Whether a path ends in a slash. -/
def endsInSlash (path : String) : Bool := path.toList.getLast? == some '/'

/-- The last component.  Slashes and dots at the end are passed over; a path that ends in two dots
or has no component names no file. -/
def fileName? (path : String) : Option String :=
  match ((parts path).filter fun part => part ≠ "" ∧ part ≠ ".").getLast? with
  | some ".." => none
  | last => last

/-- The second path below the first; an absolute one stands for itself. -/
def join (base path : String) : String :=
  if isAbsolute path then path
  else if base = "" ∨ endsInSlash base then base ++ path
  else base ++ "/" ++ path

/-- The components of a path: empty ones and dots are left out, but for a dot at the start. -/
def components (path : String) : List String :=
  match parts path with
  | "." :: rest => "." :: rest.filter fun part => part ≠ "" ∧ part ≠ "."
  | ps => ps.filter fun part => part ≠ "" ∧ part ≠ "."

/-- The paths made of the first components, the longest first, down to a single one. -/
def ancestors (base : String) : List String → List String
  | [] => []
  | c :: rest =>
    let path := join base c
    ancestors path rest ++ [path]

/-- A path and the paths above it, the root and the empty path left out. -/
def upwards (path : String) : List String :=
  let all := ancestors (if isAbsolute path then "/" else "") (components path)
  if path = "" then [] else path :: all.drop 1

end SchemaModel.PathName
