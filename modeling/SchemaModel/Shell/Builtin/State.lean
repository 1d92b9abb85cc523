import SchemaModel.Shell.Builtin.Basic
import SchemaModel.Shell.Line
import SchemaModel.Text.Lossy

/-!
# Variables, arguments and options

* `Builtin.set`, `Builtin.shift`, `Builtin.options` — options and arguments;
* `Builtin.handOn`, `Builtin.protect`, `Builtin.unset`, `Builtin.keepLocal` — variables;
* `Builtin.read` — reads a line into variables.
-/

namespace SchemaModel.Shell.Builtin

/-! ### Options and arguments -/

/-- What is said where jobs were to be controlled. -/
def noJobControl : String := "can't access tty; job control turned off"

/-- Does what arguments ask for options. -/
def setFlags (s : Session) (steps : List Flags.Step) : Session :=
  steps.foldl (fun s step =>
    match step with
    | .turn letter isOn => { s with flags := Flags.turned letter isOn s.flags }
    | .list asSettings => s.print (Flags.listing asSettings s.flags)) s

/-- The session where a shell that is not inside another one has found that it cannot control
jobs. -/
def withoutJobControl (s : Session) : Session :=
  if s.has 'm' ∧ s.outerTraps.isNone then
    { s.complain noJobControl with flags := Flags.turned 'm' false s.flags }
  else s

/-- The session with other arguments, whose options have not been read yet. -/
def withArguments (s : Session) (arguments : List String) : Session :=
  { s with arguments := s.name :: arguments, optionPlace := {} }

/-- Sets options and arguments, or lists the variables. -/
def set : Builtin := fun arguments s =>
  if arguments.isEmpty then printedText (s.listing "" (s.bindings.map (·.1))) s
  else
    match Flags.read Flags.letters arguments with
    | .error e => s.fail e
    | .ok c =>
      let s := withoutJobControl (setFlags s c.steps)
      done (if c.operands.isEmpty ∧ !c.isEnded then s else withArguments s c.operands) 0

/-- Drops the first arguments. -/
def shift : Builtin := fun arguments s =>
  match Numeral.natural? (arguments.headD "1") with
  | none => s.fail (Numeral.fault (arguments.headD ""))
  | some n =>
    if n < s.arguments.length then done (withArguments s (s.arguments.drop (n + 1))) 0
    else s.fail "can't shift that many"

/-- What the reading of one option finds: a letter, perhaps with a value, that there is none, or one
that is not known or lacks its value. -/
inductive Found where
  | option (letter : Char) (value : String)
  | unknown (letter : Char)
  | lacking (letter : Char)
  | nothing
deriving DecidableEq, Repr

/-- Whether an option takes a value, if it is known. -/
def takesValue? (c : Char) : List Char → Option Bool
  | [] => none
  | d :: rest =>
    if d = c then some (rest.head? = some ':')
    else
      match rest with
      | ':' :: more => takesValue? c more
      | rest => takesValue? c rest

/-- The next option among arguments, and the place after it. -/
def nextOption (known : List Char) (arguments : List String) (p : OptionPlace) :
    Found × OptionPlace :=
  let before := ((arguments[p.next - 2]?).getD "").toList
  let left :=
    match p.within with
    | some n => if 1 < p.next then before.drop n else []
    | none => []
  let current := ((arguments[p.next - 1]?).getD "").toList
  let (letters, next) : Option (List Char) × Nat :=
    match left, current with
    | _ :: _, _ => (some left, p.next)
    | [], '-' :: c :: rest =>
      (if c = '-' ∧ rest.isEmpty then none else some (c :: rest), p.next + 1)
    | [], _ => (none, p.next)
  match letters with
  | none | some [] => (.nothing, { next })
  | some (c :: rest) =>
    let word := ((arguments[next - 2]?).getD "").toList
    let within := some (word.length - rest.length)
    match takesValue? c known with
    | none => (.unknown c, { next, within })
    | some false => (.option c "", { next, within })
    | some true =>
      match rest, arguments[next - 1]? with
      | [], none => (.lacking c, { next })
      | [], some value => (.option c value, { next := next + 1 })
      | rest, _ => (.option c (String.ofList rest), { next })

/-- Reads the next option of arguments into variables.  The status tells that there is none left. -/
def options : Builtin := fun arguments s =>
  match arguments with
  | known :: name :: given =>
    let subject := if given.isEmpty then s.arguments.drop 1 else given
    let place := if subject.length + 1 < s.optionPlace.next then {} else s.optionPlace
    let isQuiet := known.toList.head? == some ':'
    let (found, after) := nextOption known.toList subject place
    let warn (text : String) : Session := s.send Session.errors (text ++ "\n").toUTF8
    let (letter, value, s) : Char × Option (Option String) × Session :=
      match found with
      | .option c value => (c, some (some value), s)
      | .unknown c =>
        if isQuiet then ('?', some (some c.toString), s)
        else ('?', some none, warn ("Illegal option -" ++ c.toString))
      | .lacking c =>
        if isQuiet then (':', some (some c.toString), s)
        else ('?', some none, warn ("No arg for -" ++ c.toString ++ " option"))
      | .nothing => ('?', none, s)
    let set : Session.Changing Unit := do
      match value with
      | some (some text) => Session.change (·.assign "OPTARG" text)
      | some none => Session.change (·.drop "OPTARG")
      | none => pure ()
      let place := (← get).optionPlace
      Session.change (·.assign "OPTIND" (toString after.next))
      modify fun s => { s with optionPlace := place }
      Session.change (·.assign name letter.toString)
      modify fun s => { s with optionPlace := after }
    let r := concluded set s
    if r.status = 0 ∧ found = .nothing then done r 1 else r
  | _ => s.fail "Usage: getopts optstring var [arg...]"

/-! ### Variables -/

/-- The name and the value, if there is one, of an argument that sets a variable. -/
def setting (argument : String) : String × Option String :=
  let name := argument.toList.takeWhile (· ≠ '=')
  (String.ofList name,
    if name.length < argument.length then
      some (String.ofList (argument.toList.drop (name.length + 1)))
    else none)

/-- Does something for the names and values of arguments, up to one that is no name. -/
def forNames (act : String → Option String → Session.Changing Unit) (arguments : List String) :
    Session.Changing Unit :=
  arguments.forM fun argument => do
    let (name, value) := setting argument
    if !Word.isName name.toList then throw (Session.isNoNameFault name)
    act name value

/-- Drops variables or functions. -/
def unset : Builtin := lettered "vf" "" fun l s =>
  match l.given.getLast?.map (·.1) with
  | some 'f' =>
    done { s with functions := s.functions.filter fun f => !l.operands.contains f.1 } 0
  | _ => concluded (forNames (fun name _ => Session.change (·.drop name)) l.operands) s

/-- Marks variables, which may be given values, or lists those that are marked. -/
def markAll (word : String) (marks : Session → List String) (mark : Session → String → Session) :
    Builtin :=
  let list (s : Session) : Session := printedText (s.listing word (marks s)) s
  switched 'p' list fun operands s =>
    if operands.isEmpty then list s
    else
      let one (name : String) (value : Option String) : Session.Changing Unit := do
        value.forM fun v => Session.change (·.assign name v)
        modify (mark · name)
      concluded (forNames one operands) s

/-- Hands variables to the programs that are started. -/
def handOn : Builtin := markAll "export" Session.exported Session.handOn

/-- Makes variables read only. -/
def protect : Builtin :=
  markAll "readonly" Session.readOnly fun s name =>
    { s with readOnly := Session.marked true name s.readOnly }

/-- Makes variables those of the function that is under way, or for a dash the options.  A value may
be given to what is no name. -/
def keepLocal : Builtin := fun arguments s =>
  match s.locals with
  | none => s.fail "not in a function"
  | some _ =>
    let keep (k : Kept) : Session.Changing Unit :=
      modify fun s => { s with locals := s.locals.map (k :: ·) }
    let one (argument : String) : Session.Changing Unit := do
      if argument = "-" then keep (.flags (← get).flags)
      else
        let (name, value) := setting argument
        if value.isNone ∧ !Word.isName name.toList then throw (Session.isNoNameFault name)
        keep ((← get).kept name)
        value.forM fun v => Session.change (·.settle name v)
    concluded (arguments.forM one) s

/-! ### Reading a line -/

/-- The lines that are read as one, a backslash at whose end goes on with the next.  The number
bounds their count. -/
def joinedLines (plain : Bool) : Nat → Session → List Char × Bool × Session
  | 0, s => ([], false, s)
  | fuel + 1, s =>
    let (bytes, isWhole, s) := s.takeLine
    let line := (Text.lossy bytes).toList.filter (· ≠ '\x00')
    let goesOn := (line.reverse.takeWhile (· = '\\')).length % 2 == 1
    if plain ∨ !goesOn ∨ !isWhole then (line, isWhole, s)
    else
      let (others, isWhole, s) := joinedLines plain fuel s
      (line ++ '\n' :: others, isWhole, s)

/-- Reads a line into variables. -/
def read : Builtin := lettered "r" "p" fun l s =>
  if l.operands.isEmpty then s.fail "arg count"
  else
    let plain := l.has 'r'
    let (text, isWhole, s) := joinedLines plain 1000 s
    let cells := if plain then text.map Line.Cell.plain else Line.Cell.ofLine text
    let fields := Line.fields s.separators l.operands.length cells
    let set := (l.operands.zip fields).forM fun (name, value) =>
      Session.change (·.assign name value)
    let r := concluded set s
    if r.status = 0 ∧ !isWhole then done r 1 else r

end SchemaModel.Shell.Builtin
