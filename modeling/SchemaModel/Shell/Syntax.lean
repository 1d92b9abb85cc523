/-!
# Scripts of commands

A command is a list of words with redirections, or is made of other commands.  A word is made of
parts; what has been quoted in it is neither split nor matched against names, and a part may be the
output of a command.

* `Part`, `Word` — the words of commands;
* `Redirection` — where a descriptor is led to;
* `Command` — the commands;
* `SyntaxError` — why a text is no script;
* `isSpecial` — the commands that functions cannot stand for.
-/

namespace SchemaModel.Shell

/-- What is done with the value of a parameter.  A test may count an empty value as none. -/
inductive Operator where
  | value
  | length
  | orElse (evenIfEmpty : Bool)
  | orAssign (evenIfEmpty : Bool)
  | ifGiven (evenIfEmpty : Bool)
  | orFail (evenIfEmpty : Bool)
  | withoutStart (longest : Bool)
  | withoutEnd (longest : Bool)
deriving DecidableEq, Repr

/-- How a file that a descriptor is led to is opened, or that the target is another descriptor. -/
inductive Redirection.Mode where
  | read
  | write
  | overwrite
  | append
  | readWrite
  | duplicate
deriving DecidableEq, Repr

mutual

/-- A part of a word: some text, the value of a parameter with an operator and its word, the output
of a command, the value of an expression, or a substitution that has no meaning. -/
inductive Part where
  | text (quoted : Bool) (s : List Char)
  | parameter (quoted : Bool) (name : String) (op : Operator) (word : List Part)
  | output (quoted : Bool) (c : Command)
  | value (quoted : Bool) (expression : List Part)
  | meaningless

/-- A descriptor that is led to a file or to where another one leads, or to a document, which is
known by its number. -/
inductive Redirection where
  | target (descriptor : Nat) (mode : Redirection.Mode) (word : List Part)
  | document (descriptor number : Nat)

/-- A command; those that may complain know their line. -/
inductive Command where
  | simple (line : Nat) (assignments : List (String × List Part)) (words : List (List Part))
      (redirections : List Redirection)
  | redirected (line : Nat) (body : Command) (redirections : List Redirection)
  | pipe (first rest : Command)
  | negated (c : Command)
  | both (first second : Command)
  | either (first second : Command)
  | sequence (first second : Command)
  | background (c : Command)
  | subshell (line : Nat) (c : Command)
  | branch (test yes no : Command)
  | loop (untilTrue : Bool) (test body : Command)
  | each (line : Nat) (name : String) (words : List (List Part)) (body : Command)
  | choice (line : Nat) (subject : List Part) (branches : List (List (List Part) × Command))
  | function (name : String) (body : Command)
  | nothing

end

instance : Inhabited Command := ⟨.nothing⟩

/-- A command with the redirections after it.  Where it is a shell inside, they take the place of those
that it has already. -/
def Command.redirectedBy (line : Nat) (c : Command) (redirections : List Redirection) : Command :=
  match redirections, c with
  | [], c => c
  | rs, .redirected line (.subshell inner body) _ => .redirected line (.subshell inner body) rs
  | rs, .subshell inner body => .redirected inner (.subshell inner body) rs
  | rs, c => .redirected line c rs

/-- The descriptor that a redirection leads elsewhere. -/
def Redirection.descriptor : Redirection → Nat
  | .target descriptor _ _ | .document descriptor _ => descriptor

/-- A word of a command. -/
abbrev Word := List Part

/-- What is wrong with a text.  What is found and what is expected are given as they are shown. -/
inductive Fault where
  | unexpected (what : String) (expected : Option String)
  | unterminatedQuote
  | unterminatedBackquote
  | unterminatedBrace
  | unterminatedExpression
  | badLoopVariable
  | badFunctionName
  | badDescriptor
deriving DecidableEq, Repr

/-- A fault with the line it is found in. -/
structure SyntaxError where
  line : Nat
  fault : Fault
deriving DecidableEq, Repr

/-- A word or an operator as it is shown. -/
def marked (token : String) : String := "\"" ++ token ++ "\""

/-- The wording of a fault. -/
def Fault.message : Fault → String
  | .unexpected what none => "Syntax error: " ++ what ++ " unexpected"
  | .unexpected what (some expected) =>
    "Syntax error: " ++ what ++ " unexpected (expecting " ++ expected ++ ")"
  | .unterminatedQuote => "Syntax error: Unterminated quoted string"
  | .unterminatedBackquote => "Syntax error: EOF in backquote substitution"
  | .unterminatedBrace => "Syntax error: Missing '\x7d'"
  | .unterminatedExpression => "Syntax error: Missing '))'"
  | .badLoopVariable => "Syntax error: Bad for loop variable"
  | .badFunctionName => "Syntax error: Bad function name"
  | .badDescriptor => "Syntax error: Bad fd number"

/-- Whether a fault is that a brace or an expression is still open where the text ends. -/
def Fault.isOpen : Fault → Bool
  | .unterminatedBrace | .unterminatedExpression => true
  | _ => false

/-- Whether a failure of a command of the shell, which is known by its name, ends the shell. -/
def isSpecial (name : String) : Bool :=
  [":", ".", "break", "continue", "eval", "exec", "exit", "export", "local", "readonly", "return",
    "set", "shift", "times", "trap", "unset"].contains name

end SchemaModel.Shell
