import SchemaModel.Exit
import SchemaModel.Shell.Simple

/-!
# Running programs

A program is a tool or a shell.  A shell runs the commands of its script one after another; the
first command of a pipe is done before the next one starts, and a command that is left to itself is
done at once.

* `Run.command` — runs a command, to a bounded depth;
* `execute` — runs a program with its arguments.
-/

namespace SchemaModel.Shell

namespace Run

/-- The most rounds of a loop, and the greatest depth of commands. -/
def limit : Nat := 10000

/-! ### Loops -/

/-- Runs a part of a loop; the flag says whether the loop goes on. -/
def round (run : Session → Session) (s : Session) : Bool × Session :=
  let r := run { s with loops := s.loops + 1 }
  let after (ending : Option Ending) : Session := { r with loops := s.loops, ending }
  match r.ending with
  | none => (true, after none)
  | some (.next 1) => (true, after none)
  | some (.leave 1) => (false, after none)
  | some (.next n) => (false, after (some (.next (n - 1))))
  | some (.leave n) => (false, after (some (.leave (n - 1))))
  | ending => (false, after ending)

/-- Runs the rounds of a loop on a condition, at most some number of them.  The status is that of
the last round. -/
def rounds (again : Runner) (tested untilTrue : Bool) (test body : Command) :
    Nat → Nat → Session → Session
  | 0, status, s => { s with status }
  | n + 1, status, s =>
    match round (again true test) s with
    | (false, s) => s
    | (true, s) =>
      if (s.status == 0) == untilTrue then { s with status }
      else
        match round (again tested body) s with
        | (false, s) => s
        | (true, s) => rounds again tested untilTrue test body n s.status s

/-- Runs a loop over values. -/
def valueRounds (again : Runner) (tested : Bool) (name : String) (body : Command) :
    List String → Session → Session
  | [], s => s
  | value :: rest, s =>
    match s.assign name value with
    | .error message => s.abort message
    | .ok s =>
      match round (again tested body) s with
      | (false, s) => s
      | (true, s) => valueRounds again tested name body rest s

/-! ### Choices -/

/-- Whether a text matches one of the patterns. -/
def matchesAny (again : Runner) (text : String) : List Word → Expanding Bool
  | [] => return false
  | p :: rest => do
    let ts ← Expand.patternOf (Script.outputOf again) p
    if Pattern.fits ts text.toUTF8.toList then return true
    matchesAny again text rest

/-- The body of the first branch with a pattern that a text matches. -/
def chosen (again : Runner) (text : String) :
    List (List Word × Command) → Expanding (Option Command)
  | [] => return none
  | (patterns, body) :: rest => do
    if ← matchesAny again text patterns then return some body
    chosen again text rest

/-! ### Commands -/

/-- The session after a command whose failure may end the shell, even where a function is left.
Signals are attended to before. -/
def checked (again : Runner) (tested : Bool) (s : Session) : Session :=
  let s := Script.attend again s
  let goesOn := s.ending = none ∨ s.ending = some .back
  if s.has 'e' ∧ !tested ∧ s.status ≠ 0 ∧ goesOn then { s with ending := some .exit } else s

/-- Runs a command that is left to itself, without input. -/
def leftAlone (again : Runner) (c : Command) (s : Session) : Session :=
  let r := Script.inside again (fun s => again false c (s.direct Session.input .nowhere)) s
  if r.isEnded then r
  else
    let number := s.number + 100 + s.jobs.length
    { r with
      jobs := { number, status := r.status } :: s.jobs, lastJob := some number, status := 0 }

/-- Runs a command, with a runner for those that it is made of. -/
def step (again : Runner) : Runner := fun tested c s =>
  if s.has 'n' then s
  else match c with
  | .nothing => { s with status := 0 }
  | .simple line assignments words redirections =>
    checked again tested (Simple.run again tested assignments words redirections { s with line })
  | .redirected line body redirections =>
    Simple.redirected again false redirections id (again tested body) { s with line }
  | .pipe first rest =>
    let (s, k) := (Simple.prepared rest (Simple.prepared first s)).openPipe
    let sent :=
      Script.inside again (fun s => again tested first (s.direct Session.output (.channel k))) s
    if sent.isEnded then sent
    else
      checked again tested (Script.inside again
        (fun s => again tested rest (s.direct Session.input (.source k)))
        { sent with status := s.status })
  | .negated c =>
    let s := again true c s
    if s.isEnded then s else { s with status := if s.status = 0 then 1 else 0 }
  | .both first second =>
    let s := again true first s
    if s.isEnded ∨ s.status ≠ 0 then s else again tested second s
  | .either first second =>
    let s := again true first s
    if s.isEnded ∨ s.status = 0 then s else again tested second s
  | .sequence first second => again tested second (again tested first s)
  | .background c => leftAlone again c s
  | .subshell line c => checked again tested (Script.inside again (again tested c) { s with line })
  | .branch test yes no =>
    let s := again true test s
    if s.isEnded then s else again tested (if s.status = 0 then yes else no) s
  | .loop untilTrue test body => rounds again tested untilTrue test body limit 0 s
  | .each line name words body =>
    let all : Expanding (List String) := do
      let values ← words.mapM (Expand.fields (Script.outputOf again))
      return values.flatten
    Script.expanded all { s with line } fun values s =>
      if values.isEmpty then { s with status := 0 }
      else valueRounds again tested name body values s
  | .choice line subject branches =>
    let choose : Expanding (Option Command) := do
      let text ← Expand.text (Script.outputOf again) { atStart := true } subject
      chosen again text branches
    Script.expanded choose { s with line } fun body s => again tested (body.getD .nothing) s
  | .function name body => { s with functions := (name, body) :: s.functions, status := 0 }

/-- Runs a command of no more than a given depth; a deeper one is more than the shell can bear. -/
def command : Nat → Runner
  | 0, _, _, s => { s with ending := some (.killed Signal.overrun) }
  | depth + 1, tested, c, s =>
    if s.isEnded then s else Script.attend (command depth) (step (command depth) tested c s)

end Run

/-- What a program leaves behind: the files, what it printed on both channels, and its end. -/
structure Execution where
  tree : FileTree
  out : ByteArray := ByteArray.empty
  err : ByteArray := ByteArray.empty
  exit : Exit

/-- The end of a shell that has done its work. -/
def Session.exit (s : Session) : Exit :=
  match s.ending with
  | some (.killed signal) => .killed signal
  | _ => .exited (Session.exitStatus s.status)

/-- The variables that a program is handed. -/
def surroundings : List (String × String) := [("PATH", Session.usualPath), ("HOME", "/root")]

/-- Runs a program with its arguments and no input. -/
def execute (t : FileTree) (name : String) (arguments : List String) : Execution :=
  if (name :: arguments).any (·.toList.contains '\x00') then
    { tree := t, exit := .notStarted .nulInCommand }
  else
    match Program.startable t Session.usualPath name arguments with
    | .error e => { tree := t, exit := .notStarted e }
    | .ok (.tool tool, _) =>
      let o := tool.run t { name, arguments }
      let bytes (n : Nat) : ByteArray :=
        (o.printed.filter (·.1 = n)).foldl (fun all p => all ++ p.2) ByteArray.empty
      { tree := o.tree, out := bytes Session.output, err := bytes Session.errors
        exit := .exited o.status }
    | .ok (.shell, _) =>
      let none := Channel.bytes ByteArray.empty
      let start : Session :=
        { tree := t, channels := [none, none, none], descriptors := Session.standard
          arguments := [name], bindings := Session.variablesFrom t 0 surroundings
          exported := ["PWD", "PATH", "HOME"] }
      let s := Invocation.run (Run.command Run.limit) name arguments start
      { tree := { s.tree with home := t.home }
        out := s.sent Session.output, err := s.sent Session.errors, exit := s.exit }

end SchemaModel.Shell
