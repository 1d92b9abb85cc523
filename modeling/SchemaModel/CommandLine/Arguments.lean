import SchemaModel.Batch.Run

/-!
# Command line arguments

The arguments name a command with its options.  They are read from the left, one at a time, and the
first fault ends the reading; the values of an option are looked at when the next option begins.

* `Command` — what is to be run;
* `Usage` — what keeps arguments from naming a command;
* `Argument.of` — the form of a single argument;
* `Draft` — a batch command in the making, with `Draft.read` and `Draft.finish`;
* `Command.ofArguments` — the command that arguments name.
-/

namespace SchemaModel.CommandLine

/-- What is to be run: a batch, the description of a batch, or the printing of the meta-schema. -/
inductive Command where
  | compile (batch : Batch)
  | describe (batch : Batch)
  | metaSchema
deriving DecidableEq, Repr

/-- Whether a command reads or writes files. -/
def Command.usesFiles : Command → Bool
  | .compile _ => true
  | .describe _ | .metaSchema => false

/-- What keeps arguments from naming a command.  A call for help is no fault. -/
inductive Usage where
  | help
  | nothingToDo
  | unknownCommand
  | unknownArgument
  | inputMissing
  | valueMissing
  | valueUnwanted
  | repeated
deriving DecidableEq, Repr

/-! ### Single arguments -/

/-- The form of an argument: a long option, perhaps with a value, the letter of an option with what
follows it, two lone dashes, or a word. -/
inductive Argument where
  | long (name : String) (value? : Option String)
  | short (letter : Char) (rest : List Char)
  | separator
  | word (text : String)
deriving DecidableEq, Repr

/-- The form of an argument; a lone dash is a word. -/
def Argument.of (text : String) : Argument :=
  match text.toList with
  | ['-', '-'] => .separator
  | '-' :: '-' :: name =>
    .long (String.ofList (name.takeWhile (· ≠ '=')))
      ((name.dropWhile (· ≠ '=')).tail?.map String.ofList)
  | '-' :: letter :: rest => .short letter rest
  | _ => .word text

/-- The value that follows an option's letter; an equals sign before it is left out. -/
def attached : List Char → Option String
  | [] => none
  | '=' :: value => some (String.ofList value)
  | value => some (String.ofList value)

/-- What an option is where help is the only one. -/
def Argument.usage : Argument → Usage
  | .long "help" none | .short 'h' _ => .help
  | .long "help" (some _) => .valueUnwanted
  | _ => .unknownArgument

/-! ### The batch command -/

/-- The options that take values. -/
inductive Parameter where
  | input
  | settings
  | out
deriving DecidableEq, Repr

/-- The options that take none. -/
inductive Flag where
  | noFormat
  | noOp
  | help
deriving DecidableEq, Repr

/-- The option that takes values and has a name. -/
def Parameter.ofName? : String → Option Parameter
  | "input" => some .input
  | "settings" => some .settings
  | "out" => some .out
  | _ => none

/-- The option that takes no values and has a name. -/
def Flag.ofName? : String → Option Flag
  | "no-format" => some .noFormat
  | "no-op" => some .noOp
  | "help" => some .help
  | _ => none

/-- A batch command in the making.  The option that came last has its values still to be looked
at. -/
structure Draft where
  inputs : List String := []
  settings? : Option String := none
  out? : Option String := none
  noFormat : Bool := false
  noOp : Bool := false
  pending : Option (Parameter × List String) := none
deriving DecidableEq, Repr

namespace Draft

/-- A path that is given once; the empty path is no value. -/
def single (old? : Option String) (value : String) : Except Usage (Option String) :=
  match old? with
  | some _ => .error .repeated
  | none => if value = "" then .error .valueMissing else .ok (some value)

/-- Takes the values of an option; there is at least one. -/
def take (d : Draft) (parameter : Parameter) (values : List String) : Except Usage Draft :=
  match parameter, values with
  | _, [] => .error .valueMissing
  | .input, values => .ok { d with inputs := d.inputs ++ values }
  | .settings, value :: _ => (single d.settings? value).map fun settings? => { d with settings? }
  | .out, value :: _ => (single d.out? value).map fun out? => { d with out? }

/-- Takes the values of the option that came last. -/
def settle (d : Draft) : Except Usage Draft :=
  match d.pending with
  | none => .ok d
  | some (parameter, values) => { d with pending := none }.take parameter values

/-- Begins an option; one that brings a value with it takes no other. -/
def begin (d : Draft) (parameter : Parameter) (value? : Option String) : Except Usage Draft := do
  let d ← d.settle
  match value? with
  | none => return { d with pending := some (parameter, []) }
  | some value => d.take parameter [value]

/-- Raises a flag, which must be down. -/
def raise (d : Draft) (flag : Flag) : Except Usage Draft := do
  let d ← d.settle
  match flag with
  | .help => .error .help
  | .noFormat => if d.noFormat then .error .repeated else .ok { d with noFormat := true }
  | .noOp => if d.noOp then .error .repeated else .ok { d with noOp := true }

/-- Takes a word as a value of the option that came last.  Only inputs may have several. -/
def word (d : Draft) (text : String) : Except Usage Draft :=
  match d.pending with
  | some (.input, values) => .ok { d with pending := some (.input, values ++ [text]) }
  | some (parameter, []) => .ok { d with pending := some (parameter, [text]) }
  | _ => .error .unknownArgument

/-- Reads an argument. -/
def step (d : Draft) : Argument → Except Usage Draft
  | .long name value? =>
    match Parameter.ofName? name, Flag.ofName? name with
    | some parameter, _ => d.begin parameter value?
    | none, some flag => if value?.isSome then .error .valueUnwanted else d.raise flag
    | none, none => .error .unknownArgument
  | .short 'i' rest => d.begin .input (attached rest)
  | .short 'o' rest => d.begin .out (attached rest)
  | .short 'h' _ => d.raise .help
  | .short _ _ | .separator => .error .unknownArgument
  | .word text => d.word text

/-- Reads arguments.  Two lone dashes may end them. -/
def read (d : Draft) : List String → Except Usage Draft
  | [] | ["--"] => d.settle
  | argument :: rest => do
    let d ← d.step (.of argument)
    d.read rest

/-- The command of a draft; there is at least one input. -/
def finish (d : Draft) : Except Usage Command :=
  if d.inputs.isEmpty then .error .inputMissing
  else
    let standard : Batch := { inputs := d.inputs }
    let batch : Batch :=
      { standard with
        settings := d.settings?.getD standard.settings
        out := d.out?.getD standard.out
        noFormat := d.noFormat }
    .ok (if d.noOp then .describe batch else .compile batch)

end Draft

/-! ### Commands -/

/-- The names that begin a command. -/
def commandNames : List String := ["compile", "meta-schema", "help"]

/-- A command that has no option but help. -/
def plain (command : Command) : List String → Except Usage Command
  | [] | ["--"] => .ok command
  | argument :: _ => .error (Argument.of argument).usage

/-- What a call for help asks for; it may name one command. -/
def helpUsage : List String → Usage
  | [] => .help
  | [name] => if name ∈ commandNames then .help else .unknownCommand
  | _ => .unknownCommand

/-- What arguments are that do not begin with the name of a command. -/
def usageWithoutCommand : List String → Usage
  | [] | ["--"] => .nothingToDo
  | "--" :: word :: _ => if word ∈ commandNames then .unknownArgument else .unknownCommand
  | argument :: _ =>
    match Argument.of argument with
    | .word _ => .unknownCommand
    | option => option.usage

/-- The command that arguments name. -/
def Command.ofArguments : List String → Except Usage Command
  | "compile" :: rest => (Draft.read {} rest).bind Draft.finish
  | "meta-schema" :: rest => plain .metaSchema rest
  | "help" :: rest => .error (helpUsage rest)
  | arguments => .error (usageWithoutCommand arguments)

end SchemaModel.CommandLine
