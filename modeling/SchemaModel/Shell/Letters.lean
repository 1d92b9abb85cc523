/-!
# The options of a command of the shell

Options are letters after a dash, in arguments before all others; two dashes end them.  A letter may
take a value: what is left of its argument, or the argument after it.

* `Letters.read` — the options of arguments, and the operands after them.
-/

namespace SchemaModel.Shell

/-- The options of a command of the shell with their values, and its operands. -/
structure Letters where
  given : List (Char × String) := []
  operands : List String := []
deriving DecidableEq, Repr

namespace Letters

/-- The options of one argument, with the arguments after it.  Letters in the second list take a
value. -/
def readOne (plain valued : List Char) (rest : List String) :
    List Char → Except String (List (Char × String) × List String)
  | [] => .ok ([], rest)
  | c :: cs =>
    if plain.contains c then do
      let (others, rest) ← readOne plain valued rest cs
      return ((c, "") :: others, rest)
    else if valued.contains c then
      match cs, rest with
      | [], [] => .error ("No arg for -" ++ c.toString ++ " option")
      | [], value :: rest => .ok ([(c, value)], rest)
      | cs, rest => .ok ([(c, String.ofList cs)], rest)
    else .error ("Illegal option -" ++ c.toString)

/-- The options of arguments.  The number is more than that of the arguments. -/
def readFrom (plain valued : List Char) : Nat → List String → Except String Letters
  | 0, arguments => .ok { operands := arguments }
  | _, [] => .ok {}
  | fuel + 1, argument :: rest =>
    match argument.toList with
    | ['-', '-'] => .ok { operands := rest }
    | '-' :: c :: cs => do
      let (given, rest) ← readOne plain valued rest (c :: cs)
      let l ← readFrom plain valued fuel rest
      return { l with given := given ++ l.given }
    | _ => .ok { operands := argument :: rest }

/-- The options of arguments, and the operands after them. -/
def read (plain valued : String) (arguments : List String) : Except String Letters :=
  readFrom plain.toList valued.toList (arguments.length + 1) arguments

/-- Whether a letter is given. -/
def has (l : Letters) (letter : Char) : Bool := l.given.any (·.1 = letter)

end Letters

end SchemaModel.Shell
