import SchemaModel.Shell.Numeral
import SchemaModel.Shell.Readable
import SchemaModel.Shell.Session
import SchemaModel.Shell.Token

/-!
# Parameters of a shell

A parameter is a variable, an argument, or tells something of the state of the shell.  A variable
may be read only, and may be handed to the programs that are started.

* `Session.value?` — the value of a parameter;
* `Session.assign`, `Session.drop` — giving a variable a value, and dropping it;
* `Session.change` — a step of a command that sets variables;
* `Session.kept`, `Session.giveBack`, `Session.unwound` — keeping what a variable is, and giving it
  back;
* `Session.listing` — variables with their values as they are shown.
-/

namespace SchemaModel.Shell.Session

/-- The characters that part the fields of a value. -/
def separators (s : Session) : List Char := ((s.bindings.lookup "IFS").getD " \t\n").toList

/-- The letters of the options that are on. -/
def flagLetters (s : Session) : List Char := Flags.letters.reverse.filter s.has

/-- The value of a parameter, other than that of all arguments. -/
def value? (s : Session) (name : String) : Option String :=
  match name.toNat? with
  | some n => s.arguments[n]?
  | none =>
    match name with
    | "#" => some (toString (s.arguments.length - 1))
    | "?" => some (toString s.status)
    | "$" => some (toString s.number)
    | "!" => s.lastJob.map fun n => toString n
    | "-" => some (String.ofList s.flagLetters)
    | name => s.bindings.lookup name

/-! ### Setting variables -/

/-- Adds a name to a list, or takes it out. -/
def marked (isIn : Bool) (name : String) (names : List String) : List String :=
  if !isIn then names.filter (· ≠ name)
  else if names.contains name then names
  else name :: names

/-- Hands a variable to the programs that are started. -/
def handOn (s : Session) (name : String) : Session :=
  { s with exported := marked true name s.exported }

/-- The session with a value of a variable, or without one. -/
def put (s : Session) (name : String) (value : Option String) : Session :=
  let others := s.bindings.filter (·.1 ≠ name)
  { s with bindings := value.elim others fun v => (name, v) :: others }

/-- The wording of a change of a variable that is read only. -/
def isReadOnlyFault (name : String) : String := name ++ ": is read only"

/-- The session after what depends on a variable has been set for a new value of it. -/
def adjusted (s : Session) (name value : String) : Except String Session :=
  match name with
  | "OPTIND" =>
    match Numeral.natural? value with
    | some n => .ok { s with optionPlace := { next := max n 1 } }
    | none => .error (Numeral.fault value)
  | "PATH" => .ok { s with located := [] }
  | _ => .ok s

/-- The wording where a variable has no name. -/
def isNoNameFault (name : String) : String := name ++ ": bad variable name"

/-- Gives a variable a value, whatever its name is. -/
def settle (s : Session) (name value : String) : Except String Session := do
  if s.readOnly.contains name then throw (isReadOnlyFault name)
  let s ← s.adjusted name value
  let s := s.put name (some value)
  return if s.has 'a' then s.handOn name else s

/-- Gives a variable a value. -/
def assign (s : Session) (name value : String) : Except String Session := do
  if !Word.isName name.toList then throw (isNoNameFault name)
  s.settle name value

/-- Variables that are there even without a value. -/
def lasting : List String := ["IFS", "MAIL", "MAILPATH", "OPTIND", "PATH", "PS1", "PS2", "PS4"]

/-- Whether a variable is one of the function that is under way. -/
def isLocal (s : Session) (name : String) : Bool :=
  (s.locals.getD []).any fun k =>
    match k with
    | .binding other _ _ _ => other == name
    | .flags _ => false

/-- Drops a variable.  One that is there even without a value is handed on as before. -/
def drop (s : Session) (name : String) : Except String Session := do
  if s.readOnly.contains name then throw (isReadOnlyFault name)
  let s ← s.adjusted name ""
  let isKept := lasting.contains name || s.isLocal name
  let isHandedOn := isKept && s.exported.contains name
  return { s.put name none with exported := marked isHandedOn name s.exported }

/-- Steps that change a shell, up to one that fails with a message. -/
abbrev Changing := ExceptT String (StateM Session)

/-- A step that may fail. -/
def change (f : Session → Except String Session) : Changing Unit := do
  set (← f (← get))

/-- What a variable is. -/
def kept (s : Session) (name : String) : Kept :=
  .binding name (s.bindings.lookup name) (s.exported.contains name) (s.readOnly.contains name)

/-- Gives back what has been kept. -/
def giveBack (s : Session) (before : List Kept) : Session :=
  before.foldl (fun s k =>
    match k with
    | .binding name value isExported isReadOnly =>
      let s := (value.elim (.ok s) (s.adjusted name)).toOption.getD s
      { s.put name value with
        exported := marked isExported name s.exported
        readOnly := marked isReadOnly name s.readOnly }
    | .flags letters => { s with flags := letters }) s

/-- Whether what has been kept can be given back: a variable is not dropped by what is no name. -/
def canGiveBack : Kept → Bool
  | .binding name value _ _ => value.isSome || Word.isName name.toList
  | .flags _ => true

/-- The session after a command that has kept something, with what is kept outside it.  If the shell
is being left what has been kept is not given back, but is left to one who goes on after all. -/
def unwound (before : List Kept) (outside : Option (List Kept)) (s : Session) : Session :=
  if s.isLeft then { s with locals := some (before ++ outside.getD []) }
  else
    let after := { s.giveBack (before.takeWhile canGiveBack) with locals := outside }
    match before.dropWhile canGiveBack with
    | .binding name _ _ _ :: _ => after.abort (isNoNameFault name)
    | _ => after

/-! ### Listing variables -/

/-- Names in ascending order, each once. -/
def inOrder (names : List String) : List String :=
  names.eraseDups.mergeSort fun a b => decide (a ≤ b)

/-- Variables with their values after a word, a line for each. -/
def listing (s : Session) (word : String) (names : List String) : String :=
  let start := if word.isEmpty then "" else word ++ " "
  String.join ((inOrder names).map fun name =>
    start ++ name ++ (s.bindings.lookup name).elim "" ("=" ++ readable ·) ++ "\n")

/-! ### Variables at the start -/

/-- The path of a directory given by its names. -/
def pathOf (place : List String) : String := "/" ++ "/".intercalate place

/-- The directories that programs are looked for in, unless others are given. -/
def usualPath : String := "/usr/local/sbin:/usr/local/bin:/usr/sbin:/usr/bin:/sbin:/bin"

/-- The variables of a shell that starts, given the number of what starts it and the variables that
are handed to it. -/
def variablesFrom (t : FileTree) (starter : Nat) (handed : List (String × String)) :
    List (String × String) :=
  let own := [("IFS", " \t\n"), ("OPTIND", "1"), ("PATH", usualPath), ("PPID", toString starter),
    ("PS1", "# "), ("PS2", "> "), ("PS4", "+ "), ("PWD", pathOf t.home)]
  let isOwn (name : String) : Bool := ["IFS", "OPTIND", "PPID", "PWD"].contains name
  handed.filter (fun v => !isOwn v.1) ++ own

end SchemaModel.Shell.Session
