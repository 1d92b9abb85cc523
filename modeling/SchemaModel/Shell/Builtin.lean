import SchemaModel.Shell.Builtin.Leaving
import SchemaModel.Shell.Builtin.Names
import SchemaModel.Shell.Builtin.Printing
import SchemaModel.Shell.Builtin.State
import SchemaModel.Shell.Builtin.Surroundings

/-!
# The commands of a shell by name

Some commands need to run others, which is left to the one who runs them; those are only known by
their names.

* `Builtin.isName` — whether a name is that of a command of the shell;
* `Builtin.find?` — a command by name.
-/

namespace SchemaModel.Shell.Builtin

/-- The names of the commands that run others. -/
def running : List String := [".", "command", "eval", "exec"]

/-- The commands by name, apart from those that run others and those that describe names. -/
def table : List (String × Builtin) :=
  let succeed : Builtin := fun _ s => done s 0
  [(":", succeed), ("true", succeed), ("false", fun _ s => done s 1),
    ("echo", echo), ("printf", printf), ("test", test), ("[", bracketTest),
    ("exit", leave .exit), ("return", leave .back),
    ("break", skipLoops .leave), ("continue", skipLoops .next),
    ("kill", kill), ("trap", trap), ("wait", wait),
    ("jobs", jobs), ("bg", controlled), ("fg", controlled),
    ("cd", changeDirectory), ("chdir", changeDirectory), ("pwd", workingDirectory),
    ("umask", mask), ("ulimit", bounds), ("times", times),
    ("set", set), ("shift", shift), ("getopts", options),
    ("export", handOn), ("readonly", protect), ("unset", unset), ("local", keepLocal),
    ("read", read), ("alias", setAliases), ("unalias", dropAliases)]

/-- Whether a name is that of a command of the shell. -/
def isName (name : String) : Bool :=
  (table.lookup name).isSome || running.contains name || ["hash", "type"].contains name

/-- A command by name, apart from those that run others. -/
def find? (name : String) : Option Builtin :=
  match name with
  | "hash" => some (hash isName)
  | "type" => some (type isName)
  | name => table.lookup name

/-- The commands whose arguments may set variables, which are not parted then. -/
def setsVariables (name : String) : Bool := ["alias", "export", "local", "readonly"].contains name

end SchemaModel.Shell.Builtin
