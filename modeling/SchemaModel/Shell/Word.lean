import SchemaModel.Shell.Source

/-!
# Reading words

Quotes, substitutions and braces open a stretch of text that ends with its own closing mark; inside
one another may open.  Outside quotes all three may open one, between double quotes and in an
expression only substitutions; a backslash takes the meaning from the character after it.

* `Word.Setting` — what words are read with;
* `Word.plain`, `Word.quoted`, `Word.expression` — the parts of a stretch of text;
* `Word.read`, `Word.ofDocument` — a word, and the text of a document.
-/

namespace SchemaModel.Shell

namespace Word

/-- Whether a character is the name of a parameter of its own. -/
def isSpecialParameter (c : Char) : Bool := c.isDigit || "@*#?$!-".toList.contains c

/-- What words are read with: the reader of the commands in a substitution, which may end with a
closing parenthesis, whether the text is that of a document, and whether it is the mark of one, in
which nothing is substituted. -/
structure Setting where
  nested : Bool → Reading Command
  inDocument : Bool := false
  isMark : Bool := false

/-- A word after another one. -/
def append : Word → Word → Word
  | [.text quoted s], w => prepend quoted s w
  | v, w => v ++ w

/-- What has been between double quotes.  All arguments alone may come to nothing there, but with
anything else they count as a text. -/
def enclosed (inner : Word) : Word :=
  let isArguments : Part → Bool
    | .parameter _ name .value _ => name = "@"
    | _ => false
  if 1 < inner.length ∧ inner.any isArguments then .text true [] :: inner ++ [.text true []]
  else inner

/-- Whether an operator cuts a value; the quotes around it do not reach its word. -/
def cuts : Operator → Bool
  | .withoutStart _ | .withoutEnd _ => true
  | _ => false

/-- The text between backquotes, after some characters in reverse.  A backslash before a mark is
left out.  The number is more than that of the characters that are left. -/
def backquoted (inQuotes : Bool) : Nat → List Char → Reading (List Char)
  | 0, _ => Source.fail .unterminatedBackquote
  | fuel + 1, taken => do
    match ← Source.peek with
    | none => Source.fail .unterminatedBackquote
    | some c =>
      Source.skip
      if c = '\x60' then return taken.reverse
      else if c = '\\' then
        match ← Source.peekPlain with
        | none => Source.fail .unterminatedBackquote
        | some d =>
          Source.skip
          let isMark := d = '\\' ∨ d = '\x60' ∨ d = '$' ∨ inQuotes ∧ d = '"'
          backquoted inQuotes fuel (if isMark then d :: taken else d :: c :: taken)
      else backquoted inQuotes fuel (c :: taken)

/-- The text up to a single quote.  The number is not less than that of the texts it stands in. -/
def singleQuoted : Nat → Reading (List Char)
  | 0 => Source.fail .unterminatedQuote
  | fuel + 1 => do
    let taken ← Source.skipUpTo (· = '\'')
    match ← Source.peekPlain with
    | none => Source.fail .unterminatedQuote
    | some '\'' =>
      Source.skip
      return taken
    | some _ => return taken ++ (← singleQuoted fuel)

/-- The output of the commands up to a backquote. -/
def backquote (s : Setting) (inQuotes : Bool) : Reading Word := do
  if s.isMark then return [.text inQuotes ['\x60']]
  let text ← backquoted inQuotes ((← get).bound + 1) []
  return [.output inQuotes (← Source.within text 1 (s.nested false))]

/-- The test that a colon before an operator asks for. -/
def tested? (evenIfEmpty : Bool) : Char → Option Operator
  | '-' => some (.orElse evenIfEmpty)
  | '=' => some (.orAssign evenIfEmpty)
  | '+' => some (.ifGiven evenIfEmpty)
  | '?' => some (.orFail evenIfEmpty)
  | _ => none

/-- Takes the next character if there is one, in the place of an operator, where a line end does not
count as one. -/
def take : Reading (Option Char) := do
  let c ← Source.peek
  if c.isSome then Source.skipWithin
  return c

/-- Takes the next character if it is the given one. -/
def takeIf (c : Char) : Reading Bool := do
  if (← Source.peek) = some c then
    Source.skip
    return true
  else return false

/-- The name of a parameter that is no special one: letters and digits. -/
def name : Reading (List Char) := do
  match ← Source.peek with
  | some c => Source.run (if c.isDigit then Char.isDigit else inName)
  | none => return []

/-- What follows an opening brace: the name of a parameter with its operator, after which a word may
follow. -/
structure Head where
  name : String
  op : Operator
  hasWord : Bool := true

/-- The operator after a name between braces, if it has a meaning. -/
def operator (name : String) : Reading (Option Head) := do
  match ← take with
  | some '\x7d' => return some { name, op := .value, hasWord := false }
  | some ':' =>
    match ← take with
    | some '\x7d' => return some { name, op := .value }
    | some c => return (tested? true c).map ({ name, op := · })
    | none => return none
  | some '%' => return some { name, op := .withoutEnd (← takeIf '%') }
  | some '#' => return some { name, op := .withoutStart (← takeIf '#') }
  | some c => return (tested? false c).map ({ name, op := · })
  | none => return none

/-- What follows an opening brace, if it has a meaning. -/
def head : Reading (Option Head) := do
  match ← Source.peek with
  | none | some '\x7d' => return none
  | some c =>
    if startsName c ∨ c.isDigit then
      operator (String.ofList (← name))
    else
      Source.skipWithin
      match c, ← Source.peek with
      | '#', some d =>
        if d = '_' ∨ d.isAlphanum then
          let x ← name
          if (← Source.peek) = some '\x7d' then
            return some { name := String.ofList x, op := .length }
          else return none
        else
          let before ← get
          Source.skip
          let closed := (← Source.peek) = some '\x7d'
          if d ≠ '\x7d' ∧ closed then
            return if isSpecialParameter d then some { name := d.toString, op := .length } else none
          else
            set before
            operator "#"
      | c, _ => if isSpecialParameter c then operator c.toString else return none

mutual

/-- The parts of a text outside quotes: a word up to where it ends, or the text up to a closing
brace.  The number is more than that of the steps it takes. -/
def plain (s : Setting) (inBraces : Bool) : Nat → Reading Word
  | 0 => return []
  | fuel + 1 => do
    match ← Source.peek with
    | none => if inBraces then Source.fail .unterminatedBrace else return []
    | some '\\' =>
      Source.skip
      match ← Source.peekPlain with
      | none => return prepend true ['\\'] (← plain s inBraces fuel)
      | some c =>
        Source.skip
        return prepend true [c] (← plain s inBraces fuel)
    | some '\'' =>
      Source.skip
      let inner ← singleQuoted fuel
      return prepend true inner (← plain s inBraces fuel)
    | some '"' =>
      Source.skip
      let inner ← quoted { s with inDocument := false } false false fuel
      let rest ← plain s inBraces fuel
      return if inner.isEmpty then prepend true [] rest else enclosed inner ++ rest
    | some '$' =>
      Source.skip
      let first ← dollar s false fuel
      return append first (← plain s inBraces fuel)
    | some '\x60' =>
      Source.skip
      let first ← backquote s false
      return append first (← plain s inBraces fuel)
    | some c =>
      if inBraces ∧ c = '\x7d' then
        Source.skip
        return []
      else if !inBraces ∧ Token.endsWord c then return []
      else if c = '\n' then
        Source.skip
        return prepend false [c] (← plain s inBraces fuel)
      else
        let belongs (c : Char) : Bool :=
          !"\\'\"$\x60\n".toList.contains c &&
            if inBraces then c ≠ '\x7d' else !Token.endsWord c
        let run ← Source.run belongs
        return prepend false run (← plain s inBraces fuel)
termination_by structural fuel => fuel

/-- The parts of a text between double quotes, or between braces there, or of a document.  The last
flag says that quotes have been opened between the braces; they only keep a brace from closing. -/
def quoted (s : Setting) (inBraces inner : Bool) : Nat → Reading Word
  | 0 => return []
  | fuel + 1 => do
    let isText := s.inDocument && !inBraces
    match ← Source.peek with
    | none =>
      if !s.inDocument then Source.fail .unterminatedQuote
      else if inBraces then Source.fail .unterminatedBrace
      else return []
    | some '\\' =>
      Source.skip
      match ← Source.peekPlain with
      | none => return prepend true ['\\'] (← quoted s inBraces inner fuel)
      | some c =>
        Source.skip
        let isMark :=
          "\\\x60$".toList.contains c || (c = '"' && !isText) || (c = '\x7d' && inBraces)
        return prepend true (if isMark then [c] else ['\\', c]) (← quoted s inBraces inner fuel)
    | some '$' =>
      Source.skip
      let first ← dollar s true fuel
      return append first (← quoted s inBraces inner fuel)
    | some '\x60' =>
      Source.skip
      let first ← backquote s true
      return append first (← quoted s inBraces inner fuel)
    | some c =>
      if c = '\x7d' ∧ inBraces ∧ !inner then
        Source.skip
        return []
      else if c = '"' ∧ !isText then
        Source.skip
        if inBraces then quoted s inBraces (!inner) fuel else return []
      else if c = '\n' ∨ c = '"' ∨ c = '\x7d' then
        Source.skip
        return prepend true [c] (← quoted s inBraces inner fuel)
      else
        let run ← Source.run (!"\\\"$\x60\n\x7d".toList.contains ·)
        return prepend true run (← quoted s inBraces inner fuel)
termination_by structural fuel => fuel

/-- The parts of an expression up to its two closing parentheses, inside some open ones. -/
def expression (s : Setting) : Nat → Nat → Reading Word
  | 0, _ => return []
  | fuel + 1, level => do
    match ← Source.peek with
    | none => Source.fail .unterminatedExpression
    | some '\\' =>
      Source.skip
      match ← Source.peekPlain with
      | none => return prepend true ['\\'] (← expression s fuel level)
      | some c =>
        Source.skip
        let isMark := "\\\x60$".toList.contains c || (c = '"' && !s.inDocument)
        return prepend true (if isMark then [c] else ['\\', c]) (← expression s fuel level)
    | some '$' =>
      Source.skip
      let first ← dollar s true fuel
      return append first (← expression s fuel level)
    | some '\x60' =>
      Source.skip
      let first ← backquote s true
      return append first (← expression s fuel level)
    | some c =>
      Source.skip
      if c = '(' then return prepend true [c] (← expression s fuel (level + 1))
      else if c = ')' ∧ 0 < level then
        return prepend true [c] (← expression s fuel (level - 1))
      else
        let closes ← if c = ')' then takeIf ')' else pure false
        if closes then return [] else return prepend true [c] (← expression s fuel level)
termination_by structural fuel => fuel

/-- What stands after a dollar sign. -/
def dollar (s : Setting) (inQuotes : Bool) : Nat → Reading Word
  | 0 => return []
  | fuel + 1 => do
    match ← Source.peek with
    | some c =>
      if s.isMark then return [.text inQuotes ['$']]
      else if c = '(' then
        Source.skip
        if ← takeIf '(' then return [.value inQuotes (← expression s fuel 0)]
        else return [.output inQuotes (← s.nested true)]
      else if c = '\x7b' then
        Source.skip
        match ← head with
        | some h =>
          let word ←
            if !h.hasWord then pure []
            else if inQuotes && !cuts h.op then quoted s true false fuel
            else plain s true fuel
          return [.parameter inQuotes h.name h.op word]
        | none =>
          let _ ← if inQuotes then quoted s true false fuel else plain s true fuel
          return [.meaningless]
      else if startsName c then
        let x ← name
        return [.parameter inQuotes (String.ofList x) .value []]
      else if isSpecialParameter c then
        Source.skip
        return [.parameter inQuotes c.toString .value []]
      else return [.text inQuotes ['$']]
    | none => return [.text inQuotes ['$']]
termination_by structural fuel => fuel

end

/-- A word up to where it ends. -/
def read (s : Setting) : Reading Word := do plain s false (4 * (← get).bound + 4)

/-- The word of a document. -/
def ofDocument (s : Setting) : Reading Word := do
  quoted { s with inDocument := true } false false (4 * (← get).bound + 4)

end Word

end SchemaModel.Shell
