import SchemaModel.Shell.Quoted

/-!
# The options of a tool

Options may stand anywhere among the operands, up to an argument of two dashes.  After one dash
every letter is an option; after two dashes stands a long name, which may be cut short as long as
it is clear.  An option may take a value: after an equals sign, in the rest of its argument or in
the argument after it.

* `Options.Known` — the options that a tool knows;
* `Options.read` — the options and operands of arguments;
* `Options.choice` — a value that is one of some words.
-/

namespace SchemaModel.Shell

/-- The options of a tool with their values, in the order they are given, and the operands. -/
structure Options where
  given : List (String × Option String) := []
  operands : List String := []
deriving DecidableEq, Repr

namespace Options

/-- Whether an option takes a value. -/
inductive Need where
  | nothing
  | optional
  | required
deriving DecidableEq, Repr

/-- The options that a tool knows: its long names, and its letters with the names they stand for.  A
letter may stand for an option without a long name, which takes no value. -/
structure Known where
  names : List (String × Need)
  letters : List (Char × String)
deriving DecidableEq, Repr

/-- Why arguments are no options. -/
inductive Fault where
  | invalid (letter : Char)
  | lacking (letter : Char)
  | unrecognized (name : String)
  | ambiguous (name : String) (candidates : List String)
  | valueUnwanted (name : String)
  | valueMissing (name : String)
deriving DecidableEq, Repr

/-- A text between single quotes. -/
def quoted (text : String) : String := "'" ++ text ++ "'"

/-- A long option between quotes. -/
def longQuoted (name : String) : String := quoted ("--" ++ name)

/-- The wording of a fault. -/
def Fault.message : Fault → String
  | .invalid letter => "invalid option -- " ++ quoted letter.toString
  | .lacking letter => "option requires an argument -- " ++ quoted letter.toString
  | .unrecognized name => "unrecognized option " ++ longQuoted name
  | .ambiguous name candidates =>
    "option " ++ longQuoted name ++ " is ambiguous; possibilities: " ++
      " ".intercalate (candidates.map longQuoted)
  | .valueUnwanted name => "option " ++ longQuoted name ++ " doesn't allow an argument"
  | .valueMissing name => "option " ++ longQuoted name ++ " requires an argument"

/-- The long option of a name that may be cut short. -/
def Known.long (k : Known) (text : String) : Except Fault (String × Need) :=
  let name := text.toList.takeWhile (· ≠ '=')
  let fits := k.names.filter fun e => name.isPrefixOf e.1.toList
  match fits.find? (·.1.toList = name), fits with
  | some e, _ | none, [e] => .ok e
  | none, [] => .error (.unrecognized text)
  | none, _ => .error (.ambiguous text (fits.map (·.1)))

/-- The options whose letters stand after one dash, with the arguments after them. -/
def Known.short (k : Known) (rest : List String) :
    List Char → Except Fault (List (String × Option String) × List String)
  | [] => .ok ([], rest)
  | c :: cs =>
    match k.letters.lookup c with
    | none => .error (.invalid c)
    | some name =>
      if k.names.lookup name = some .required then
        match cs, rest with
        | [], [] => .error (.lacking c)
        | [], value :: rest => .ok ([(name, some value)], rest)
        | cs, rest => .ok ([(name, some (String.ofList cs))], rest)
      else do
        let (others, rest) ← k.short rest cs
        return ((name, none) :: others, rest)

/-- The options that tell of the tool itself, after which nothing else is read. -/
def aboutItself : List String := ["help", "version"]

/-- The options and operands of arguments.  The number is more than that of the arguments. -/
def readFrom (k : Known) : Nat → List String → Except Fault Options
  | 0, _ | _, [] => .ok {}
  | fuel + 1, argument :: rest =>
    let more (given : List (String × Option String)) (rest : List String) :
        Except Fault Options := do
      let o ← readFrom k fuel rest
      return { o with given := given ++ o.given }
    match argument.toList with
    | ['-', '-'] => .ok { operands := rest }
    | '-' :: '-' :: text => do
      let (name, need) ← k.long (String.ofList text)
      let value :=
        match text.dropWhile (· ≠ '=') with
        | '=' :: value => some (String.ofList value)
        | _ => none
      match need, value, rest with
      | .nothing, some _, _ => .error (.valueUnwanted name)
      | .required, none, [] => .error (.valueMissing name)
      | .required, none, value :: rest => more [(name, some value)] rest
      | _, value, rest =>
        if aboutItself.contains name then return { given := [(name, none)] }
        else more [(name, value)] rest
    | '-' :: c :: cs => do
      let (given, rest) ← k.short rest (c :: cs)
      more given rest
    | _ => do
      let o ← readFrom k fuel rest
      return { o with operands := argument :: o.operands }

/-- The options and operands of arguments. -/
def read (k : Known) (arguments : List String) : Except Fault Options :=
  readFrom k (arguments.length + 1) arguments

/-- Whether any of some options is given. -/
def has (o : Options) (names : List String) : Bool := o.given.any fun g => names.contains g.1

/-- Whether the tool is only asked to tell of itself. -/
def isAboutItself (o : Options) : Bool := o.has aboutItself

/-- The values of an option, of which there is none where it is given without. -/
def values (o : Options) (name : String) : List (Option String) :=
  (o.given.filter (·.1 = name)).map (·.2)

/-! ### Choices -/

/-- The words that may be chosen, each with those that mean the same, as they are listed. -/
def choiceListing (choices : List (List String)) : String :=
  String.join (choices.map fun words => "\n  - " ++ ", ".intercalate (words.map quoted))

/-- The choice that a word means, which may be cut short as long as it is clear. -/
def choice (what : String) (choices : List (List String)) (word : String) : Except String String :=
  let begins (words : List String) : Bool := words.any fun w => word.toList.isPrefixOf w.toList
  let fault (kind : String) : Except String String :=
    .error (kind ++ " argument " ++ quoted word ++ " for " ++ quoted what ++
      "\nValid arguments are:" ++ choiceListing choices)
  match choices.find? (·.contains word), choices.filter begins with
  | some words, _ | none, [words] => .ok (words.headD "")
  | none, [] => fault "invalid"
  | none, _ => fault "ambiguous"

end Options

end SchemaModel.Shell
