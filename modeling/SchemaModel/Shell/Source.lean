import SchemaModel.Shell.Token

/-!
# A script that is being read

A script is read from its start, one character after another; lines are counted, and a backslash at
the end of a line joins it to the next one.  The text of an alias is read in place of its name, and
meanwhile the alias does not stand for anything.

* `Source` — what is left of a script, and what is known of it;
* `Reading` — reads something from a script;
* `Source.peek`, `Source.skip`, `Source.run` — looking at characters and taking them.
-/

namespace SchemaModel.Shell

/-- What is left of the text of an alias, and whether the text ends in a blank. -/
structure Insertion where
  name : String
  text : List Char
  endsInBlank : Bool
deriving DecidableEq, Repr

/-- A document that the lines to come belong to, up to one that is its mark. -/
structure Awaited where
  number : Nat
  mark : List Char
  expands : Bool
  stripsTabs : Bool
deriving DecidableEq, Repr

/-- What is left of a script, after the texts of aliases that are under way, and the aliases whose
texts have just come to their end.  One that ends in a blank lets the word after it be an alias,
too.  A token may have been read ahead.  The bound is not less than the number of characters that
are left. -/
structure Source where
  text : List Char
  bound : Nat
  line : Nat := 1
  insertions : List Insertion := []
  finished : List String := []
  reopens : Bool := false
  ahead : Option Token := none
  aliases : List (String × String) := []
  awaited : List Awaited := []
  documents : List (Nat × Word) := []
  documentCount : Nat := 0

/-- Reads something from a script, unless there is an error. -/
abbrev Reading := StateT Source (Except SyntaxError)

namespace Source

/-- An error in the line that is being read. -/
def fail {α : Type} (f : Fault) : Reading α := do throw ⟨(← get).line, f⟩

/-- A script at its start. -/
def ofText (text : List Char) : Source := { text, bound := text.length }

/-- The characters that are left of the innermost text. -/
def here (s : Source) : List Char :=
  match s.insertions with
  | i :: _ => i.text
  | [] => s.text

/-- The source with other characters left of the innermost text. -/
def withHere (s : Source) (text : List Char) : Source :=
  match s.insertions with
  | i :: rest => { s with insertions := { i with text } :: rest }
  | [] => { s with text }

/-- The source after the texts that are at their end. -/
def settle (s : Source) : Source :=
  let isAtEnd (i : Insertion) : Bool := i.text.isEmpty
  let ended := s.insertions.takeWhile isAtEnd
  { s with
    insertions := s.insertions.dropWhile isAtEnd
    finished := ended.map (·.name)
    reopens := s.reopens || ended.any (·.endsInBlank) }

/-- A text after the line ends at its start that join lines, with their number. -/
def joined : List Char → List Char × Nat
  | '\\' :: '\n' :: rest =>
    let (text, n) := joined rest
    (text, n + 1)
  | text => (text, 0)

/-- The source at its next character. -/
def ready (s : Source) : Source :=
  let s := s.settle
  let (text, n) := joined s.here
  { s.withHere text with line := s.line + n }

/-- The next character, which joins no lines. -/
def peek : Reading (Option Char) := do
  modify ready
  return (← get).here.head?

/-- The next character, whatever it is. -/
def peekPlain : Reading (Option Char) := do
  modify settle
  return (← get).here.head?

/-- Takes the next character. -/
def skip : Reading Unit :=
  modify fun s =>
    let line := if s.here.head? = some '\n' then s.line + 1 else s.line
    { s.withHere (s.here.drop 1) with line }

/-- Takes the next character, which ends no line where it stands. -/
def skipWithin : Reading Unit := modify fun s => s.withHere (s.here.drop 1)

/-- The characters at the start of a text that belong together, in reverse after some others, with
the number of lines joined there and the rest. -/
def runFrom (belongs : Char → Bool) (taken : List Char) (lines : Nat) :
    List Char → List Char × Nat × List Char
  | [] => (taken, lines, [])
  | [c] => if belongs c then (c :: taken, lines, []) else (taken, lines, [c])
  | c :: d :: rest =>
    if c = '\\' ∧ d = '\n' then runFrom belongs taken (lines + 1) rest
    else if belongs c then runFrom belongs (c :: taken) lines (d :: rest)
    else (taken, lines, c :: d :: rest)

/-- Takes the next characters that belong together, none of which ends a line. -/
def run (belongs : Char → Bool) : Reading (List Char) := do
  let s ← get
  let (taken, lines, rest) := runFrom belongs [] 0 s.here
  set { s.withHere rest with line := s.line + lines }
  return taken.reverse

/-- Takes all characters up to one that ends them, which is left where it is. -/
def skipUpTo (ends : Char → Bool) : Reading (List Char) := do
  let s ← get
  let taken := s.here.takeWhile (!ends ·)
  set { s.withHere (s.here.drop taken.length) with line := s.line + taken.countP (· = '\n') }
  return taken

/-- Takes all characters up to the end of the line, which is left where it is.  The number is more
than that of the texts that the line is made of. -/
def skipLine : Nat → Reading Unit
  | 0 => return ()
  | fuel + 1 => do
    let _ ← skipUpTo (· = '\n')
    modify settle
    match (← get).here with
    | [] | '\n' :: _ => return ()
    | _ => skipLine fuel

/-- A text after a number of line ends. -/
def afterLines : Nat → List Char → List Char
  | 0, text => text
  | _ + 1, [] => []
  | n + 1, c :: rest => if c = '\n' then afterLines n rest else afterLines (n + 1) rest

/-- Reads something from another text, which starts in a line, and then goes on where the source
is. -/
def within {α : Type} (text : List Char) (line : Nat) (reading : Reading α) : Reading α := do
  let s ← get
  set { s with
    text, bound := text.length, line, insertions := [], ahead := none, awaited := [] }
  let x ← reading
  modify fun inner =>
    { s with documents := inner.documents, documentCount := inner.documentCount }
  return x

/-- The text of an alias that is not under way. -/
def aliasText? (s : Source) (name : String) : Option String :=
  if s.finished.contains name ∨ s.insertions.any (·.name = name) then none
  else s.aliases.lookup name

/-- The source with the text of an alias before what is left. -/
def insert (s : Source) (name text : String) : Source :=
  let text := text.toList
  if text.isEmpty then s
  else
    let endsInBlank := text.getLast?.any fun c => c = ' ' || c = '\t'
    { s with
      insertions := ⟨name, text, endsInBlank⟩ :: s.insertions, bound := s.bound + text.length }

/-- One more document that is awaited; its number. -/
def await (mark : List Char) (expands stripsTabs : Bool) : Reading Nat := do
  let number := (← get).documentCount
  let a : Awaited := { number, mark, expands, stripsTabs }
  modify fun s => { s with documentCount := number + 1, awaited := s.awaited ++ [a] }
  return number

/-- Puts a token back, to be read next. -/
def putBack (t : Token) : Reading Unit := modify fun s => { s with ahead := some t }

end Source

end SchemaModel.Shell
