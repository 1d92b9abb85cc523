import SchemaModel.Shell.Syntax

/-!
# The tokens of a script

A script is made of words, operators, redirections and line ends.  Some words are reserved where a
command may start or an open command may go on.

* `Token` — the tokens;
* `Token.shown` — a token as messages name it;
* `Token.endsList` — whether a list of commands ends before a token.
-/

namespace SchemaModel.Shell

/-- Whether a character may start a name. -/
def Word.startsName (c : Char) : Bool := c.isAlpha || c = '_'

/-- Whether a character may stand in a name. -/
def Word.inName (c : Char) : Bool := c.isAlphanum || c = '_'

/-- Whether characters are a name. -/
def Word.isName : List Char → Bool
  | [] => false
  | c :: rest => startsName c && rest.all inName

/-- A word in front of which some text is put. -/
def Word.prepend (quoted : Bool) (s : List Char) : Word → Word
  | .text q t :: rest =>
    if q = quoted then .text q (s ++ t) :: rest else .text quoted s :: .text q t :: rest
  | w => .text quoted s :: w

/-- The characters of a word in which nothing is quoted or substituted. -/
def Word.literal? : Word → Option (List Char)
  | [.text false s] => some s
  | _ => none

/-- Whether something is quoted in a word. -/
def Word.isQuoted (w : Word) : Bool := w.any fun
  | .text quoted _ => quoted
  | _ => false

/-- The text of a word in which nothing is substituted. -/
def Word.chars (w : Word) : List Char := w.flatMap fun
  | .text _ s => s
  | _ => []

/-- An assignment at the start of a command: a name and the word of its value. -/
def Word.assignment? : Word → Option (String × Word)
  | .text false s :: rest =>
    let name := s.takeWhile (· ≠ '=')
    match s.drop name.length with
    | '=' :: value =>
      if isName name then
        some (String.ofList name, if value.isEmpty then rest else .text false value :: rest)
      else none
    | _ => none
  | _ => none

/-- A token of a script. -/
inductive Token where
  | word (w : Word)
  | reserved (text : String)
  | operator (text : String)
  | redirection (descriptor : Option Nat) (operator : String)
  | newline
  | ending

namespace Token

/-- The words that are not names of commands. -/
def reservedWords : List String :=
  ["!", "\x7b", "\x7d", "case", "do", "done", "elif", "else", "esac", "fi", "for", "if", "in",
    "then", "until", "while"]

/-- The reserved words and operators that end a list of commands. -/
def closers : List String :=
  [")", ";;", "\x7d", "do", "done", "elif", "else", "esac", "fi", "then"]

/-- A token as messages name it. -/
def shown : Token → String
  | .word _ => "word"
  | .reserved text | .operator text => marked text
  | .redirection _ _ => "redirection"
  | .newline => "newline"
  | .ending => "end of file"

/-- Whether a token is an operator. -/
def isOperator (text : String) : Token → Bool
  | .operator t => t = text
  | _ => false

/-- Whether a token is a reserved word. -/
def isReserved (text : String) : Token → Bool
  | .reserved t => t = text
  | _ => false

/-- Whether a list of commands ends before a token. -/
def endsList : Token → Bool
  | .reserved text | .operator text => closers.contains text
  | .ending => true
  | .word _ | .redirection _ _ | .newline => false

/-- Whether a character ends a word where nothing is open. -/
def endsWord (c : Char) : Bool := " \t\n&|;<>()".toList.contains c

/-- The mode of a redirection, and the descriptor it is about unless one is named. -/
def mode? : String → Option (Redirection.Mode × Nat)
  | "<" => some (.read, 0)
  | "<&" => some (.duplicate, 0)
  | "<>" => some (.readWrite, 0)
  | ">" => some (.write, 1)
  | ">|" => some (.overwrite, 1)
  | ">>" => some (.append, 1)
  | ">&" => some (.duplicate, 1)
  | _ => none

end Token

end SchemaModel.Shell
