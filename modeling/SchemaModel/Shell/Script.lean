import SchemaModel.Shell.Builtin
import SchemaModel.Shell.Expand
import SchemaModel.Shell.Grammar
import SchemaModel.Shell.Redirect

/-!
# Running scripts

A shell reads the commands of a script line by line and runs each line before it reads the next one.
A command that stands in parentheses, in a pipe or in a substitution runs in a shell of its own,
which leaves behind only files, what it printed and its status.

* `Runner` — what runs a command;
* `Script.run`, `Script.runWithin` — run the text of a script;
* `Script.inside`, `Script.outputOf` — run a command in a shell of its own.
-/

namespace SchemaModel.Shell

/-- What runs a command.  The flag says whether the failure of the command is looked at. -/
abbrev Runner := Bool → Command → Session → Session

namespace Script

/-! ### Lines -/

/-- How a script is run: whether the failure of its commands is looked at, whether its lines are
shown if that is asked for, whether they are asked for, and whether the status is zero if it has no
commands. -/
structure Manner where
  tested : Bool := false
  showsLines : Bool := false
  asksForLines : Bool := false
  startsAnew : Bool := false

/-- The text of the prompt in a variable, with the outputs that its commands are given. -/
def prompt (output : Expand.Output) (name : String) (s : Session) : String × Session :=
  let plain := (s.bindings.lookup name).getD ""
  let (text, s) := (Expand.text output {} (Word.ofPrompt plain.toList)).run.run s
  (text.toOption.getD plain, s)

/-- Asks a user for a line. -/
def asked (m : Manner) (name : String) (s : Session) : Session :=
  if m.asksForLines ∧ s.has 'i' then
    let (text, s) := prompt (fun _ s => ("", s)) name s
    s.send Session.errors text.toUTF8
  else s

/-- Asks a user for more lines of a command. -/
def askedForMore (m : Manner) (more : Nat) (s : Session) : Session :=
  more.repeat (asked m "PS2") s

/-- Shows what has been read of a text, given what is left of it, if that is asked for. -/
def shown (m : Manner) (text rest : List Char) (s : Session) : Session :=
  if m.showsLines ∧ s.has 'v' then
    s.send Session.errors (String.ofList (text.take (text.length - rest.length))).toUTF8
  else s

/-- Runs the lines of a script; a faulty one ends the shell.  The number is more than that of the
lines. -/
def lines (again : Runner) (m : Manner) : Nat → Source → Session → Session
  | 0, _, s => s
  | fuel + 1, source, s =>
    if s.isEnded then s
    else
      let source := { source with
        aliases := s.aliases, documents := [], documentCount := s.documents.length }
      let s := asked m "PS1" s
      match Source.nextLine.run source with
      | .error e =>
        let more := e.line - source.line
        let s := shown m source.text (Source.afterLines more source.text) (askedForMore m more s)
        { s with line := e.line }.abort e.fault.message
      | .ok (c?, after) =>
        let s := askedForMore m (after.line - source.line - 1) s
        let s := shown m source.text after.text s
        match c? with
        | none => if m.startsAnew then { s with status := 0 } else s
        | some c =>
          let documents := after.documents ++ s.documents
          let s := again m.tested c { s with documents, lineRead := after.line }
          lines again { m with startsAnew := false } fuel { after with documents := [] } s

/-- Runs the text of a script. -/
def run (again : Runner) (m : Manner) (text : List Char) (s : Session) : Session :=
  { lines again m (text.length + 2) (Source.ofText text) s with lineRead := s.lineRead }

/-- Runs the text of a script for a command of the shell, which messages name. -/
def runWithin (again : Runner) (m : Manner) (name : String) (text : List Char) (s : Session) :
    Session :=
  let r := run again { m with startsAnew := true } text { s with within := some name }
  { r with within := s.within }

/-! ### Traps -/

/-- Runs the trap of a signal, which keeps the status. -/
def trapOf (again : Runner) (signal : Nat) (s : Session) : Session :=
  match s.traps.lookup signal with
  | none => s
  | some script =>
    let r := run again {} script.toList s
    if r.isEnded then r else { r with status := s.status }

/-- Attends to the signals that have been caught, in their order, unless that is for an outer
shell. -/
def attend (again : Runner) (s : Session) : Session :=
  let s := s.struck
  if s.outerTraps.isSome then s
  else
    let signals := s.caught.mergeSort fun a b => decide (a ≤ b)
    signals.foldl (fun s signal => trapOf again signal s) { s with caught := [] }

/-- The end of a shell, with the trap for it, which is run only once. -/
def finish (again : Runner) (s : Session) : Session :=
  match s.ending, s.traps.lookup 0 with
  | some (.killed _), _ | _, none => s
  | _, some script =>
    let traps := s.traps.filter (·.1 ≠ 0)
    let r := run again {} script.toList { s with traps, ending := none }
    if r.isEnded then r else { r with status := s.status }

/-! ### Shells inside -/

/-- Runs something in a shell of its own. -/
def inside (again : Runner) (run : Session → Session) (s : Session) : Session :=
  s.inner fun s => finish again (run s)

/-- The output of a command, without the line ends after it. -/
def outputOf (again : Runner) : Expand.Output := fun c s =>
  let (s, k) := s.openPipe
  let r := inside again (fun s => again false c (s.direct Session.output (.channel k))) s
  let bytes := (Text.lossy (r.sent k)).toList.filter (· ≠ '\x00')
  let text := (bytes.reverse.dropWhile (· = '\n')).reverse
  (String.ofList text, { r with status := s.status, outputStatus := r.status }.struck)

/-- Goes on with what has been expanded; a failure ends the shell. -/
def expanded {α : Type} (e : Expanding α) (s : Session) (next : α → Session → Session) : Session :=
  match e.run.run s with
  | (.error message, s) => s.abort message
  | (.ok x, s) => if s.isEnded then s else next x s

end Script

end SchemaModel.Shell
