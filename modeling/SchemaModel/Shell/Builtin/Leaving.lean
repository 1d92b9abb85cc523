import SchemaModel.Shell.Builtin.Basic
import SchemaModel.Signal

/-!
# Leaving, signals and jobs

* `Builtin.leave`, `Builtin.skipLoops` — leave the shell, a function or loops;
* `Builtin.kill`, `Builtin.trap` — send signals, and set what is done on them;
* `Builtin.wait` — waits for commands that have been left to themselves.
-/

namespace SchemaModel.Shell.Builtin

/-- Leaves the shell or a function with a status. -/
def leave (ending : Ending) : Builtin := fun arguments s =>
  match arguments with
  | [] => { s with ending := some ending }
  | text :: _ =>
    match Numeral.natural? text with
    | some n => { done s n with ending := some ending }
    | none => s.fail (Numeral.fault text)

/-- Leaves loops or goes on with their next round; of more loops than there are, all. -/
def skipLoops (ending : Nat → Ending) : Builtin := fun arguments s =>
  match Numeral.natural? (arguments.headD "1") with
  | some (n + 1) =>
    let loops := min (n + 1) s.loops
    { done s 0 with ending := if loops = 0 then none else some (ending loops) }
  | _ => s.fail (Numeral.fault (arguments.headD ""))

/-! ### Signals -/

/-- The signal of a number or a name, from a least one on. -/
def signalOf? (least : Nat) (text : String) : Option Nat :=
  if !text.isEmpty ∧ text.toList.all Char.isDigit then
    let n := Numeral.value 10 text.toList
    if n ≤ Signal.limit then some n else none
  else (Signal.ofLabel? text).filter (least ≤ ·)

/-- What a signal to the shell does, where zero is none.  One that comes from a shell inside, which
goes on, is for the outermost one; once that is killed no others count. -/
def receive (signal : Nat) (s : Session) : Session :=
  let traps := s.outerTraps.getD s.traps
  let kills (signal : Nat) : Bool := (Session.trapOn? traps signal).isNone
  let isLost := signal == 0 || s.caught.any kills
  let isHeeded := if kills signal then Signal.isFatal signal else traps.lookup signal != some ""
  if kills signal ∧ s.outerTraps.isNone then s.strike signal
  else if isHeeded ∧ !isLost then { s with caught := s.caught.filter (· ≠ signal) ++ [signal] }
  else s

/-- The job that a text names: the current one, the one before, or one by its number. -/
def jobOf (s : Session) (text : String) : Except String Job :=
  let named (job : Option Job) (what : String) : Except String Job :=
    job.elim (.error what) .ok
  let unknown := "No such job: " ++ text
  match text.toList with
  | ['%'] | ['%', '%'] | ['%', '+'] => named s.jobs.head? "No current job"
  | ['%', '-'] => named (s.jobs.drop 1).head? "No previous job"
  | '%' :: digits =>
    match Numeral.natural? (String.ofList digits) with
    | some (n + 1) => named s.jobs.reverse[n]? unknown
    | _ => .error unknown
  | _ => .error unknown

/-- Sends a signal to processes, of which only the shell, its jobs and the shells that it is below
are known.  A dash stands before the number of a group, none of which is there. -/
def signalAll (signal : Nat) (status : Nat) : List String → Session → Session
  | [], s => done s status
  | process :: rest, s =>
    match Numeral.natural? process, process.toList with
    | some n, _ =>
      if n = s.number then
        let s := receive signal s
        if s.isEnded then s else signalAll signal status rest s
      else if s.jobs.any (·.number = n) ∨ signal = 0 ∧ n < s.number then
        signalAll signal status rest s
      else signalAll signal 1 rest (s.complain "No such process\n")
    | none, '%' :: _ =>
      match jobOf s process with
      | .ok _ => signalAll signal status rest s
      | .error e => s.fail e
    | none, '-' :: digits =>
      match Numeral.natural? (String.ofList digits) with
      | some _ => signalAll signal 1 rest (s.complain "No such process\n")
      | none => s.fail (Numeral.fault (String.ofList digits))
    | none, _ => s.fail (Numeral.fault process)

/-- How the command that sends signals is used. -/
def killUsage : String :=
  "Usage: kill [-s sigspec | -signum | -sigspec] [pid | job]... or\nkill -l [exitstatus]"

/-- Lists the signals, or the one of a number or of a status. -/
def listSignals (numbers : List String) (s : Session) : Session :=
  match numbers with
  | [] =>
    let labels := (List.range Signal.limit).map fun n => Signal.label (n + 1) ++ "\n"
    printedText ("0\n" ++ String.join labels) s
  | number :: _ =>
    match Numeral.natural? number with
    | some n =>
      let signal := if 128 < n then n - 128 else n
      if 0 < signal ∧ signal ≤ Signal.limit then printedText (Signal.label signal ++ "\n") s
      else s.fail ("invalid signal number or exit status: " ++ number)
    | none => s.fail (Numeral.fault number)

/-- Sends a signal. -/
def kill : Builtin := fun arguments s =>
  let send (signal : Nat) (processes : List String) : Session :=
    if processes.isEmpty then s.fail killUsage else signalAll signal 0 processes s
  let first := arguments.headD ""
  match first.toList, signalOf? 1 (String.ofList (first.toList.drop 1)) with
  | '-' :: _, some signal => send signal (arguments.drop 1)
  | _, _ =>
    match Letters.read "l" "s" arguments with
    | .error e => s.fail e
    | .ok l =>
      let names := (l.given.filter (·.1 = 's')).map (·.2)
      match names.find? fun name => (signalOf? 1 name).isNone with
      | some name => s.fail ("invalid signal number or name: " ++ name)
      | none =>
        match names.getLast?.bind (signalOf? 1) with
        | some signal => if l.has 'l' then s.fail killUsage else send signal l.operands
        | none => if l.has 'l' then listSignals l.operands s else send 15 l.operands

/-- The traps in the order of their signals as they are listed. -/
def trapListing (traps : List (Nat × String)) : String :=
  let inOrder := traps.mergeSort fun a b => decide (a.1 ≤ b.1)
  String.join (inOrder.map fun t =>
    "trap -- " ++ readable t.2 ++ " " ++ Signal.label t.1 ++ "\n")

/-- Sets what is done on signals, up to one that is none. -/
def setTraps (action : Option String) : List String → Session → Session
  | [], s => done s 0
  | name :: rest, s =>
    match signalOf? 0 name with
    | none => done (s.send Session.errors ("trap: " ++ name ++ ": bad trap\n").toUTF8) 1
    | some signal =>
      let others := s.traps.filter (·.1 ≠ signal)
      setTraps action rest
        { s with traps := action.elim others fun text => (signal, text) :: others }

/-- Whether a text is the number of a signal. -/
def isSignalNumber (text : String) : Bool :=
  text.toList.all Char.isDigit && (signalOf? 0 text).isSome

/-- Sets what is done on signals, or lists it.  There is no action where the first operand is the
number of a signal or the only operand. -/
def trap : Builtin := lettered "" "" fun l s =>
  match l.operands with
  | [] => printedText (trapListing s.traps) s
  | [name] => setTraps none [name] s
  | action :: names =>
    if isSignalNumber action then setTraps none (action :: names) s
    else setTraps (if action = "-" then none else some action) names s

/-! ### Jobs -/

/-- The status of a job. -/
def jobStatus (s : Session) (text : String) : Except String Nat :=
  match text.toList with
  | '%' :: _ => (jobOf s text).map (·.status)
  | _ =>
    match Numeral.natural? text with
    | some n => .ok (((s.jobs.find? (·.number = n)).map (·.status)).getD 127)
    | none => .error (Numeral.fault text)

/-- Waits for jobs; the status is that of the last one. -/
def waitFor : List String → Session → Session
  | [], s => s
  | text :: rest, s =>
    match jobStatus s text with
    | .ok status => waitFor rest (done s status)
    | .error e => s.fail e

/-- Waits for jobs, or for all of them. -/
def wait : Builtin := lettered "" "" fun l s => waitFor l.operands (done s 0)

/-- A command about one job, none of which can be controlled. -/
def controlled : Builtin := lettered "" "" fun l s =>
  match jobOf s (l.operands.headD "%%") with
  | .ok _ => s.fail ("job " ++ l.operands.headD "(null)" ++ " not created under job control")
  | .error e => s.fail e

/-- Lists jobs; all of them are done. -/
def jobs : Builtin := lettered "lp" "" fun l s =>
  match l.operands.mapM (jobOf s) with
  | .ok _ => done s 0
  | .error e => s.fail e

end SchemaModel.Shell.Builtin
