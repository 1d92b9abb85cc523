import SchemaModel.Shell.Letters
import SchemaModel.Shell.Variables

/-!
# Commands that a shell runs itself

A command of the shell is given arguments and changes the session.  One that fails prints a message
and has a status; a special one that fails with the status of an error ends the shell, which is left
to the one who runs it.

* `Builtin` — what a command of the shell does;
* `Builtin.lettered`, `Builtin.switched` — its options;
* `Builtin.concluded`, `Builtin.printed` — its end and its output.
-/

namespace SchemaModel.Shell

/-- A command of the shell: what its arguments do. -/
abbrev Builtin := List String → Session → Session

namespace Builtin

/-- The session after a command with a status. -/
def done (s : Session) (status : Nat) : Session := { s with status }

/-- A command with options, some of which take a value. -/
def lettered (plain valued : String) (run : Letters → Session → Session) : Builtin :=
  fun arguments s =>
    match Letters.read plain valued arguments with
    | .ok l => run l s
    | .error e => s.fail e

/-- A command that does one thing as soon as a letter is found to be its first option, and else
another without options. -/
def switched (letter : Char) (atOnce : Session → Session)
    (run : List String → Session → Session) : Builtin :=
  fun arguments s =>
    if ['-', letter].isPrefixOf (arguments.headD "").toList then atOnce s
    else lettered "" "" (fun l => run l.operands) arguments s

/-- The session after the steps of a command, of which those before one that fails count. -/
def concluded (steps : Session.Changing Unit) (s : Session) : Session :=
  match steps.run.run s with
  | (.ok (), s) => done s 0
  | (.error e, s) => s.fail e

/-- Prints the output of a command. -/
def printed (bytes : ByteArray) (s : Session) : Session := done (s.send Session.output bytes) 0

/-- Prints a text as the output of a command. -/
def printedText (text : String) (s : Session) : Session := printed text.toUTF8 s

end Builtin

end SchemaModel.Shell
