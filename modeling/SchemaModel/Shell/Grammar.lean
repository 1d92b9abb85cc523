import SchemaModel.Shell.TokenStream

/-!
# The grammar of scripts

Commands are joined by pipes, pipes by conditions, and these by semicolons and line ends.  A
reserved word counts as one only where a command may start or an open command may go on.  A script
is read line by line, so the commands before a faulty line are there.

* `Grammar.list`, `Grammar.command` — commands inside others;
* `Source.nextLine` — the commands of the next line of a script.
-/

namespace SchemaModel.Shell

open TokenStream

namespace Grammar

/-- The parts of a simple command that have been read, in reverse. -/
structure SimpleParts where
  assignments : List (String × Word) := []
  words : List Word := []
  redirections : List Redirection := []

/-- The simple command of some parts. -/
def SimpleParts.command (p : SimpleParts) (line : Nat) : Command :=
  .simple line p.assignments.reverse p.words.reverse p.redirections.reverse

/-- What a redirection leads to. -/
def redirection (s : Word.Setting) (descriptor : Option Nat) (operator : String) :
    Reading Redirection := do
  match Token.mode? operator with
  | some (mode, usual) =>
    match ← next s {} with
    | .word w => return .target (descriptor.getD usual) mode w
    | t => unexpected none t
  | none =>
    match ← next { s with isMark := true } {} with
    | .word w =>
      let number ← Source.await w.chars (!w.isQuoted) (operator == "<<-")
      return .document (descriptor.getD 0) number
    | t => unexpected none t

/-- The redirections after a command.  The number is more than theirs. -/
def redirections (s : Word.Setting) : Nat → Reading (List Redirection)
  | 0 => return []
  | fuel + 1 => do
    match ← next s .start with
    | .redirection descriptor operator =>
      let r ← redirection s descriptor operator
      return r :: (← redirections s fuel)
    | t =>
      Source.putBack t
      return []

/-- What is expected next. -/
def expect (s : Word.Setting) (k : Kinds) (isExpected : Token → Bool) (text : String) :
    Reading Unit := do
  let t ← next s k
  if isExpected t then return () else unexpected (some (marked text)) t

/-- The words of a loop, up to the end of their line. -/
def loopWords (s : Word.Setting) : Nat → Reading (List Word)
  | 0 => return []
  | fuel + 1 => do
    match ← next s {} with
    | .word w => return w :: (← loopWords s fuel)
    | .newline | .operator ";" => return []
    | t => unexpected none t

/-- The name and the words of a loop over words, which are the arguments unless they are given. -/
def loopHead (s : Word.Setting) : Reading (String × List Word) := do
  match ← next s {} with
  | .word w =>
    match w.literal? with
    | some name =>
      if !Word.isName name then Source.fail .badLoopVariable
      let name := String.ofList name
      let t ← next s .startLater
      if t.isReserved "in" then return (name, ← loopWords s ((← get).bound + 2))
      else
        if !t.isOperator ";" then Source.putBack t
        return (name, [[.parameter true "@" .value []]])
    | none => Source.fail .badLoopVariable
  | _ => Source.fail .badLoopVariable

/-- The word that a token stands for in a pattern. -/
def patternOf : Token → Word
  | .word w => w
  | .reserved text => [.text false text.toList]
  | _ => []

/-- The patterns of a branch, the first of which is given, up to the parenthesis that ends them. -/
def patterns (s : Word.Setting) (first : Token) : Nat → Reading (List Word)
  | 0 => return []
  | fuel + 1 => do
    let t ← next s {}
    if t.isOperator "|" then
      let second ← next s {}
      return patternOf first :: (← patterns s second fuel)
    else if t.isOperator ")" then return [patternOf first]
    else unexpected (some (marked ")")) t

mutual

/-- The commands of a substitution, which may end with a closing parenthesis.  A document that is
still awaited there is empty, or has the lines that are left. -/
def substitution : Nat → Bool → Reading Command
  | fuel + 1, closes => do
    let s : Word.Setting := { nested := substitution fuel }
    let awaited := (← get).awaited
    modify ({ · with awaited := [] })
    let c ← list fuel true
    if closes then
      expect s {} (·.isOperator ")") ")"
      modify fun source =>
        let empty := source.awaited.map fun a => (a.number, [Part.text true []])
        { source with awaited, documents := empty ++ source.documents }
    else
      documents s
      modify ({ · with awaited })
    return c
  | 0, _ => return .nothing
termination_by structural fuel => fuel

/-- A list of commands inside another command, which may have to hold one.  At the end of the text
it is empty. -/
def list : Nat → Bool → Reading Command
  | fuel + 1, mayBeEmpty => do
    let s : Word.Setting := { nested := substitution fuel }
    match ← look s .startLater with
    | .ending =>
      documents s
      return .nothing
    | t =>
      if mayBeEmpty ∧ t.endsList then return .nothing
      else listRest fuel (← condition fuel)
  | 0, _ => return .nothing
termination_by structural fuel => fuel

/-- The rest of a list, after a command. -/
def listRest : Nat → Command → Reading Command
  | fuel + 1, first => do
    let s : Word.Setting := { nested := substitution fuel }
    let goOn (first : Command) : Reading Command := do
      match ← look s .startLater with
      | .ending =>
        documents s
        return first
      | t =>
        if t.endsList then return first
        else listRest fuel (.sequence first (← condition fuel))
    match ← next s {} with
    | .operator "&" => goOn (.background first)
    | .operator ";" => goOn first
    | .newline =>
      Source.putBack .newline
      goOn first
    | t =>
      Source.putBack t
      match t with
      | .ending => documents s
      | _ => pure ()
      return first
  | 0, first => return first
termination_by structural fuel => fuel

/-- Pipes joined by conditions. -/
def condition : Nat → Reading Command
  | fuel + 1 => do conditionRest fuel (← pipes fuel)
  | 0 => return .nothing
termination_by structural fuel => fuel

/-- The rest of pipes joined by conditions. -/
def conditionRest : Nat → Command → Reading Command
  | fuel + 1, first => do
    match ← next { nested := substitution fuel } {} with
    | .operator "&&" => conditionRest fuel (.both first (← pipes fuel))
    | .operator "||" => conditionRest fuel (.either first (← pipes fuel))
    | t =>
      Source.putBack t
      return first
  | 0, first => return first
termination_by structural fuel => fuel

/-- Commands joined by pipes, the whole of which may be negated. -/
def pipes : Nat → Reading Command
  | fuel + 1 => do
    let t ← next { nested := substitution fuel } .startLater
    if t.isReserved "!" then return .negated (← pipesFrom fuel .start)
    else
      Source.putBack t
      pipesFrom fuel {}
  | 0 => return .nothing
termination_by structural fuel => fuel

/-- Commands joined by pipes. -/
def pipesFrom : Nat → Kinds → Reading Command
  | fuel + 1, k => do
    let first ← command fuel k
    match ← next { nested := substitution fuel } {} with
    | .operator "|" => return .pipe first (← pipesFrom fuel .startLater)
    | t =>
      Source.putBack t
      return first
  | 0, _ => return .nothing
termination_by structural fuel => fuel

/-- A command. -/
def command : Nat → Kinds → Reading Command
  | fuel + 1, k => do
    let s : Word.Setting := { nested := substitution fuel }
    let line := (← get).line
    let redirected (c : Command) : Reading Command := do
      return c.redirectedBy line (← redirections s ((← get).bound + 2))
    match ← next s k with
    | .operator "(" =>
      let c ← list fuel false
      expect s {} (·.isOperator ")") ")"
      redirected (.subshell line c)
    | .reserved "\x7b" =>
      let c ← list fuel false
      expect s {} (·.isReserved "\x7d") "\x7d"
      redirected c
    | .reserved "if" => redirected (← branches fuel)
    | .reserved "while" => redirected (← loop fuel false)
    | .reserved "until" => redirected (← loop fuel true)
    | .reserved "for" =>
      let (name, words) ← loopHead s
      expect s .startLater (·.isReserved "do") "do"
      let body ← list fuel false
      expect s {} (·.isReserved "done") "done"
      redirected (.each line name words body)
    | .reserved "case" =>
      match ← next s {} with
      | .word subject =>
        expect s .startLater (·.isReserved "in") "in"
        redirected (.choice line subject (← cases fuel))
      | t => unexpected (some "word") t
    | .word w =>
      Source.putBack (.word w)
      simple fuel (← get).line true {}
    | .redirection descriptor operator =>
      Source.putBack (.redirection descriptor operator)
      simple fuel (← get).line true {}
    | t => unexpected none t
  | 0, _ => return .nothing
termination_by structural fuel => fuel

/-- A simple command, after some of its parts in reverse; the flag says that it may still start with
an assignment.  A name and parentheses start a function. -/
def simple : Nat → Nat → Bool → SimpleParts → Reading Command
  | fuel + 1, line, atStart, p => do
    let s : Word.Setting := { nested := substitution fuel }
    match ← next s { aliases := atStart } with
    | .word w =>
      match if atStart then Word.assignment? w else none with
      | some a => simple fuel line atStart { p with assignments := a :: p.assignments }
      | none => simple fuel line false { p with words := w :: p.words }
    | .redirection descriptor operator =>
      let r ← redirection s descriptor operator
      simple fuel line atStart { p with redirections := r :: p.redirections }
    | .operator "(" =>
      match p with
      | ⟨[], [name], []⟩ =>
        expect s {} (·.isOperator ")") ")"
        match name.literal? with
        | some name =>
          if !Word.isName name ∨ isSpecial (String.ofList name) then Source.fail .badFunctionName
          return .function (String.ofList name) (← command fuel .startLater)
        | none => Source.fail .badFunctionName
      | _ =>
        Source.putBack (.operator "(")
        return p.command line
    | t =>
      Source.putBack t
      return p.command line
  | 0, _, _, _ => return .nothing
termination_by structural fuel => fuel

/-- A condition with its branches, up to its end. -/
def branches : Nat → Reading Command
  | fuel + 1 => do
    let s : Word.Setting := { nested := substitution fuel }
    let test ← list fuel false
    expect s {} (·.isReserved "then") "then"
    let yes ← list fuel false
    let t ← next s {}
    if t.isReserved "elif" then return .branch test yes (← branches fuel)
    else if t.isReserved "else" then
      let no ← list fuel false
      expect s {} (·.isReserved "fi") "fi"
      return .branch test yes no
    else if t.isReserved "fi" then return .branch test yes .nothing
    else unexpected (some (marked "fi")) t
  | 0 => return .nothing
termination_by structural fuel => fuel

/-- A loop on a condition, up to its end. -/
def loop : Nat → Bool → Reading Command
  | fuel + 1, untilTrue => do
    let s : Word.Setting := { nested := substitution fuel }
    let test ← list fuel false
    expect s {} (·.isReserved "do") "do"
    let body ← list fuel false
    expect s {} (·.isReserved "done") "done"
    return .loop untilTrue test body
  | 0, _ => return .nothing
termination_by structural fuel => fuel

/-- The branches of a choice, up to its end. -/
def cases : Nat → Reading (List (List Word × Command))
  | fuel + 1 => do
    let s : Word.Setting := { nested := substitution fuel }
    let t ← next s { skipsLines := true, reserved := true }
    if t.isReserved "esac" then return []
    let first ← if t.isOperator "(" then next s {} else pure t
    let ps ← patterns s first ((← get).bound + 2)
    let body ← list fuel true
    let t ← next s { skipsLines := true, reserved := true }
    if t.isReserved "esac" then return [(ps, body)]
    else if t.isOperator ";;" then return (ps, body) :: (← cases fuel)
    else unexpected (some (marked ";;")) t
  | 0 => return []
termination_by structural fuel => fuel

end

/-- What is left of a line of commands, after those before.  Empty lines at its start are passed
over; at the end of the script there is none. -/
def line (fuel : Nat) : Nat → Option Command → Reading (Option Command)
  | 0, first => return first
  | steps + 1, first => do
    let s : Word.Setting := { nested := substitution fuel }
    match ← next s .start with
    | .newline =>
      documents s
      if first.isSome then return first else line fuel steps none
    | .ending =>
      documents s
      Source.putBack .ending
      return first
    | t =>
      Source.putBack t
      let c ← condition fuel
      let joined (c : Command) : Command :=
        match first with
        | some first => .sequence first c
        | none => c
      match ← next s {} with
      | .operator "&" => line fuel steps (some (joined (.background c)))
      | .operator ";" => line fuel steps (some (joined c))
      | .newline =>
        Source.putBack .newline
        line fuel steps (some (joined c))
      | .ending =>
        documents s
        Source.putBack .ending
        return some (joined c)
      | t => unexpected none t

end Grammar

/-- The commands of the next line of a script that has any; none at its end. -/
def Source.nextLine : Reading (Option Command) := do
  let source ← get
  let inserted := source.aliases.foldl (fun n a => n + a.2.length) 1
  let steps := (source.bound + 2) * inserted
  Grammar.line (8 * steps) steps none

/-- A text read as if it stood between double quotes, in which these stand for themselves.  A text
that cannot be read stands for itself. -/
def Word.ofPrompt (text : List Char) : Word :=
  let reading := Word.ofDocument { nested := Grammar.substitution (8 * (text.length + 2)) }
  match reading.run (Source.ofText text) with
  | .ok (w, _) => w
  | .error _ => [.text true text]

end SchemaModel.Shell
