/-!
# The options of a shell

An option of a shell is a letter, which is turned on after a dash and off after a plus sign.  After
the letter `o` the next argument is the name of an option; without one all options are listed.

* `Flags.names` — the options with names;
* `Flags.read` — what arguments do to options, and the operands after them;
* `Flags.listing` — the options as they are listed.
-/

namespace SchemaModel.Shell.Flags

/-- The options that are known by a letter, with their names. -/
def lettered : List (String × Char) :=
  [("errexit", 'e'), ("noglob", 'f'), ("ignoreeof", 'I'), ("interactive", 'i'), ("monitor", 'm'),
    ("noexec", 'n'), ("stdin", 's'), ("xtrace", 'x'), ("verbose", 'v'), ("vi", 'V'),
    ("emacs", 'E'), ("noclobber", 'C'), ("allexport", 'a'), ("notify", 'b'), ("nounset", 'u'),
    ("privileged", 'p')]

/-- The options with names; the last two are known by their names alone. -/
def names : List (String × Char) := lettered ++ [("nolog", '\x01'), ("debug", '\x02')]

/-- The letters of the options. -/
def letters : List Char := lettered.map (·.2)

/-- One thing that arguments do to options: to turn one on or off, or to list them all. -/
inductive Step where
  | turn (letter : Char) (isOn : Bool)
  | list (asSettings : Bool)
deriving DecidableEq, Repr

/-- What arguments do to options.  Operands are only known to be given if there are any or if
something has ended the options. -/
structure Change where
  steps : List Step := []
  isEnded : Bool := false
  operands : List String := []
deriving DecidableEq, Repr

/-- Options that are on after one has been turned on or off.  Of two ways to edit lines only one can
be on. -/
def turned (letter : Char) (isOn : Bool) (flags : List Char) : List Char :=
  let others := flags.filter fun c =>
    c ≠ letter && !(isOn && ((letter = 'V' && c = 'E') || (letter = 'E' && c = 'V')))
  if isOn then letter :: others else others

/-- Options that are on after a change. -/
def apply (steps : List Step) (flags : List Char) : List Char :=
  steps.foldl (fun flags step =>
    match step with
    | .turn letter isOn => turned letter isOn flags
    | .list _ => flags) flags

/-- The options of one argument, with the arguments after it. -/
def readLetters (known : List Char) (isOn : Bool) :
    List Char → List String → Except String (List Step × List String)
  | [], rest => .ok ([], rest)
  | 'o' :: cs, name :: rest =>
    match names.lookup name with
    | some c => do
      let (others, rest) ← readLetters known isOn cs rest
      return (.turn c isOn :: others, rest)
    | none => .error ("Illegal option -o " ++ name)
  | 'o' :: cs, [] => do
    let (others, rest) ← readLetters known isOn cs []
    return (.list (!isOn) :: others, rest)
  | c :: cs, rest =>
    if known.contains c then do
      let (others, rest) ← readLetters known isOn cs rest
      return (.turn c isOn :: others, rest)
    else .error ("Illegal option -" ++ c.toString)

/-- What arguments do to options.  The number is more than that of the arguments. -/
def readFrom (known : List Char) : Nat → List String → Except String Change
  | 0, arguments => .ok { operands := arguments }
  | _, [] => .ok {}
  | fuel + 1, argument :: rest =>
    let more (isOn : Bool) (cs : List Char) : Except String Change := do
      let (steps, rest) ← readLetters known isOn cs rest
      let c ← readFrom known fuel rest
      return { c with steps := steps ++ c.steps }
    match argument.toList with
    | ['-'] => .ok { steps := [.turn 'x' false, .turn 'v' false], operands := rest }
    | ['-', '-'] => .ok { isEnded := true, operands := rest }
    | '-' :: cs => more true cs
    | '+' :: cs => more false cs
    | _ => .ok { operands := argument :: rest }

/-- What arguments do to options, and the operands after them. -/
def read (known : List Char) (arguments : List String) : Except String Change :=
  readFrom known (arguments.length + 1) arguments

/-- The options with what they are, as a table or as the commands that make them so. -/
def listing (asSettings : Bool) (flags : List Char) : String :=
  let line (e : String × Char) : String :=
    let isOn := flags.contains e.2
    if asSettings then (if isOn then "set -o " else "set +o ") ++ e.1 ++ "\n"
    else
      let blanks := String.ofList (List.replicate (16 - e.1.length) ' ')
      e.1 ++ blanks ++ (if isOn then "on" else "off") ++ "\n"
  (if asSettings then "" else "Current option settings\n") ++ String.join (names.map line)

end SchemaModel.Shell.Flags
