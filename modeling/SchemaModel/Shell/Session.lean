import SchemaModel.FileTree.Basic
import SchemaModel.Shell.Bound
import SchemaModel.Shell.Flags
import SchemaModel.Shell.Syntax
import SchemaModel.Signal

/-!
# A shell at work

A shell has a file tree, variables and arguments, the status of its last command, and descriptors
that lead to channels or open files.  What is written to a channel stays there until it is read.  An
open file is read and written from some place in it on, which all descriptors that lead to it share.

* `Target`, `Ending` — where a descriptor leads, and why a shell stops;
* `OpenFile`, `Channel` — what descriptors lead to;
* `Session` — a shell at work;
* `Session.send`, `Session.takeInput` — writing to a descriptor and reading the input;
* `Session.complain`, `Session.fail`, `Session.abort` — what a shell does when something fails.
-/

namespace SchemaModel.Shell

/-- Where a descriptor leads: to a channel that is written to or read, to an open file that may be
read or written, or nowhere. -/
inductive Target where
  | channel (n : Nat)
  | source (n : Nat)
  | file (n : Nat) (isRead isWritten : Bool)
  | nowhere
deriving DecidableEq, Repr

/-- Why a shell does not go on with the next command: it is left, it has failed, it is killed, a
function is left, or some loops are left or go on with their next round. -/
inductive Ending where
  | exit
  | failed
  | killed (signal : Nat)
  | back
  | leave (loops : Nat)
  | next (loops : Nat)
deriving DecidableEq, Repr

/-- An open file: the names that lead to it, what it holds if it has been removed since, where it is
read or written next, and whether it is only written at its end. -/
structure OpenFile where
  place : List String
  removed : Option ByteArray := none
  offset : Nat := 0
  atEnd : Bool := false

/-- What has been sent to a channel, or an open file. -/
inductive Channel where
  | bytes (b : ByteArray)
  | file (f : OpenFile)

/-- What a function gives back at its end: a variable with what it was, or the options. -/
inductive Kept where
  | binding (name : String) (value : Option String) (isExported isReadOnly : Bool)
  | flags (letters : List Char)
deriving DecidableEq, Repr

/-- Where the reading of options by a script has come to: the number of the next argument, and how
many characters of the one before it have been read if it has more. -/
structure OptionPlace where
  next : Nat := 1
  within : Option Nat := none
deriving DecidableEq, Repr

/-- A command that a shell has left to itself: its number and how it has ended. -/
structure Job where
  number : Nat
  status : Nat
deriving DecidableEq, Repr

/-- A shell at work.  The first of the arguments is its name; messages also name the command of its
own that is under way and its line, or the line that the script has been read to.  Loops and
functions are counted as they are entered.  The programs whose places are known are marked if they
have been looked for in this directory.  In a function there is something that is given back at
its end, the last one first.  A trap is a script that is run on a signal, or at the end of the
shell, which counts as signal zero; in a shell inside another one, the traps of the outer one are
known.  It is noted when output cannot be written. -/
structure Session where
  tree : FileTree
  channels : List Channel
  descriptors : List (Nat × Target)
  arguments : List String
  number : Nat := 1
  line : Nat := 0
  lineRead : Nat := 1
  bindings : List (String × String) := []
  exported : List String := []
  readOnly : List String := []
  functions : List (String × Command) := []
  aliases : List (String × String) := []
  documents : List (Nat × Word) := []
  located : List (String × Bool) := []
  optionPlace : OptionPlace := {}
  mask : Nat := 18
  bounds : List (Char × Bound) := []
  jobs : List Job := []
  lastJob : Option Nat := none
  within : Option String := none
  loops : Nat := 0
  calls : Nat := 0
  status : Nat := 0
  outputStatus : Nat := 0
  isOutputLost : Bool := false
  flags : List Char := []
  locals : Option (List Kept) := none
  traps : List (Nat × String) := []
  outerTraps : Option (List (Nat × String)) := none
  caught : List Nat := []
  ending : Option Ending := none

namespace Session

/-- The number of the descriptor of the input. -/
def input : Nat := 0

/-- The number of the descriptor of the output. -/
def output : Nat := 1

/-- The number of the descriptor of errors. -/
def errors : Nat := 2

/-- The channels that a shell starts with: its input, its output and its errors. -/
def standard : List (Nat × Target) := [(0, .source 0), (1, .channel 1), (2, .channel 2)]

/-- The name of the shell. -/
def name (s : Session) : String := s.arguments.headD "sh"

/-- Whether the shell stops here. -/
def isEnded (s : Session) : Bool := s.ending.isSome

/-- Whether the shell itself is being left. -/
def isLeft (s : Session) : Bool :=
  match s.ending with
  | some .exit | some .failed | some (.killed _) => true
  | some .back | some (.leave _) | some (.next _) | none => false

/-- Whether an option is on. -/
def has (s : Session) (flag : Char) : Bool := s.flags.contains flag

/-! ### Channels -/

/-- The bytes that have been sent to a channel. -/
def sent (s : Session) (n : Nat) : ByteArray :=
  match s.channels[n]? with
  | some (.bytes b) => b
  | some (.file _) | none => ByteArray.empty

/-- One more channel, with its number. -/
def openChannel (s : Session) (c : Channel) : Session × Nat :=
  ({ s with channels := s.channels ++ [c] }, s.channels.length)

/-- One more channel that nothing has been sent to. -/
def openPipe (s : Session) : Session × Nat := s.openChannel (.bytes ByteArray.empty)

/-- Leads a descriptor to a target. -/
def direct (s : Session) (n : Nat) (target : Target) : Session :=
  { s with descriptors := (n, target) :: s.descriptors.filter (·.1 ≠ n) }

/-- Closes a descriptor. -/
def close (s : Session) (n : Nat) : Session :=
  { s with descriptors := s.descriptors.filter (·.1 ≠ n) }

/-- The open file of a number. -/
def file? (s : Session) (n : Nat) : Option OpenFile :=
  match s.channels[n]? with
  | some (.file f) => some f
  | some (.bytes _) | none => none

/-- What an open file holds. -/
def contentOf (t : FileTree) (f : OpenFile) : Except OsError ByteArray :=
  match f.removed, t.root.find? f.place with
  | some content, _ | none, some (.file content) => .ok content
  | none, some (.directory _) => .error .isADirectory
  | none, some .device | none, none => .ok ByteArray.empty

/-- A content with bytes written over it from a place on.  What is missing before that place becomes
zeros. -/
def overwritten (content : ByteArray) (start : Nat) (bytes : ByteArray) : ByteArray :=
  let gap : ByteArray := ⟨Array.replicate (start - content.size) 0⟩
  content.extract 0 start ++ gap ++ bytes ++ content.extract (start + bytes.size) content.size

/-- Writes bytes to an open file. -/
def write (s : Session) (n : Nat) (f : OpenFile) (bytes : ByteArray) : Session :=
  match contentOf s.tree f with
  | .error _ => s
  | .ok content =>
    let start := if f.atEnd then content.size else f.offset
    let content := overwritten content start bytes
    let offset := start + bytes.size
    let (tree, removed) :=
      match f.removed with
      | some _ => (s.tree, some content)
      | none => (s.tree.putAt f.place.dropLast (f.place.getLastD "") (.file content), none)
    { s with tree, channels := s.channels.set n (.file { f with offset, removed }) }

/-- Writes bytes to where a descriptor leads, if they can be written there. -/
def send (s : Session) (n : Nat) (bytes : ByteArray) : Session :=
  let lost := { s with isOutputLost := s.isOutputLost || n == output && !bytes.isEmpty }
  match s.descriptors.lookup n with
  | some (.channel k) =>
    { s with channels := s.channels.set k (.bytes (s.sent k ++ bytes)) }
  | some (.file k _ true) =>
    match s.file? k with
    | some f => if bytes.isEmpty then s else s.write k f bytes
    | none => s
  | some .nowhere => s
  | some (.source _) | some (.file _ _ false) | none => lost

/-- Whether a descriptor is there. -/
def isOpen (s : Session) (n : Nat) : Bool := (s.descriptors.lookup n).isSome

/-- Whether what is sent to a descriptor is written. -/
def isWritten (s : Session) (n : Nat) : Bool :=
  match s.descriptors.lookup n with
  | some (.source _) | none => false
  | some (.file _ _ isWritten) => isWritten
  | some (.channel _) | some .nowhere => true

/-- Prints a text. -/
def print (s : Session) (text : String) : Session := s.send output text.toUTF8

/-- The open file that a descriptor leads to. -/
def openFile? (s : Session) (n : Nat) : Option OpenFile :=
  match s.descriptors.lookup n with
  | some (.file k _ _) => s.file? k
  | some (.channel _) | some (.source _) | some .nowhere | none => none

/-- The names that lead to the file that a descriptor leads to. -/
def placeOf (s : Session) (n : Nat) : Option (List String) :=
  (s.openFile? n).bind fun f => if f.removed.isSome then none else some f.place

/-- What is left of the input. -/
def inputLeft (s : Session) : Except OsError ByteArray :=
  match s.descriptors.lookup input with
  | some (.source k) => .ok (s.sent k)
  | some (.file k true _) =>
    match s.file? k with
    | some f => (contentOf s.tree f).map fun content => content.extract f.offset content.size
    | none => .ok ByteArray.empty
  | some .nowhere => .ok ByteArray.empty
  | some (.channel _) | some (.file _ false _) | none => .error .badDescriptor

/-- The session after some bytes of the input have been read. -/
def afterReading (s : Session) (count : Nat) : Session :=
  match s.descriptors.lookup input with
  | some (.source k) =>
    let left := (s.sent k).extract count (s.sent k).size
    { s with channels := s.channels.set k (.bytes left) }
  | some (.file k true _) =>
    match s.file? k with
    | some f => { s with channels := s.channels.set k (.file { f with offset := f.offset + count }) }
    | none => s
  | some (.channel _) | some (.file _ false _) | some .nowhere | none => s

/-- All that is left of the input, and the session after it has been read. -/
def takeInput (s : Session) : Except OsError ByteArray × Session :=
  match s.inputLeft with
  | .ok bytes => (.ok bytes, s.afterReading bytes.size)
  | .error e => (.error e, s)

/-- The next line of the input without its end, and whether it has one. -/
def takeLine (s : Session) : ByteArray × Bool × Session :=
  let bytes := (s.inputLeft.toOption.getD ByteArray.empty).toList
  let line := bytes.takeWhile (· ≠ 0x0A)
  let isWhole := decide (line.length < bytes.length)
  (⟨line.toArray⟩, isWhole, s.afterReading (if isWhole then line.length + 1 else line.length))

/-- The session with another tree.  Open files that are not there any more keep what they held. -/
def withTree (s : Session) (tree : FileTree) : Session :=
  let kept (f : OpenFile) : OpenFile :=
    match f.removed, s.tree.root.find? f.place, tree.root.find? f.place with
    | none, some (.file content), none => { f with removed := some content }
    | _, _, _ => f
  let channels := s.channels.map fun c =>
    match c with
    | .file f => .file (kept f)
    | .bytes b => .bytes b
  { s with tree, channels }

/-! ### Failures -/

/-- Prints a message of the shell. -/
def complain (s : Session) (what : String) : Session :=
  let place := (s.within.map (· ++ ": ")).getD ""
  s.send errors (s.name ++ ": " ++ toString s.line ++ ": " ++ place ++ what ++ "\n").toUTF8

/-- A failed command with its message. -/
def fail (s : Session) (what : String) : Session := { s.complain what with status := 2 }

/-- A failure that ends the shell. -/
def abort (s : Session) (what : String) : Session :=
  { s.fail what with ending := some .failed }

/-! ### Signals -/

/-- What a signal does that no trap has been set for.  A shell with a user goes on after an
interrupt and does not heed two other signals. -/
def strike (signal : Nat) (s : Session) : Session :=
  if s.has 'i' ∧ signal = 2 then
    { s.send errors "\n".toUTF8 with status := 128 + signal, ending := some .failed }
  else if s.has 'i' ∧ (signal = 3 ∨ signal = 15) then s
  else if Signal.isFatal signal then { s with ending := some (.killed signal) }
  else s

/-- The script of the trap for a signal.  None is heeded for the signal that always kills. -/
def trapOn? (traps : List (Nat × String)) (signal : Nat) : Option String :=
  if signal = 9 then none else traps.lookup signal

/-- The session after a shell inside may have sent a signal that no trap has been set for.  It goes
on to the outermost shell. -/
def struck (s : Session) : Session :=
  match s.caught.find? fun signal => (trapOn? s.traps signal).isNone with
  | some signal => if s.outerTraps.isNone then { s with caught := [] }.strike signal else s
  | none => s

/-! ### Shells inside -/

/-- What is seen of a status when a process has ended. -/
def exitStatus (status : Nat) : Nat := status % 256

/-- What a shell says of a process of its own that has been killed. -/
def killedMessage (signal : Nat) : String :=
  if signal = 2 ∨ signal = 13 then "" else Signal.description signal ++ "\n"

/-- A shell after a process of its own has been killed. -/
def afterKilled (s : Session) (signal : Nat) : Session :=
  { s.send errors (killedMessage signal).toUTF8 with status := 128 + signal }

/-- Runs something in a shell of its own, unless this one has ended, which leaves behind files, channels, its status and a
signal for the outermost shell. -/
def inner (s : Session) (run : Session → Session) : Session :=
  if s.isEnded then s
  else
    let start := { s with
      traps := s.traps.filter (·.2.isEmpty), outerTraps := some (s.outerTraps.getD s.traps)
      jobs := [], lineRead := 1 }
    let r := run start
    let after : Session :=
      { s with
        tree := { r.tree with home := s.tree.home }
        channels := r.channels
        status := exitStatus r.status
        caught := r.caught }
    match r.ending with
    | some (.killed signal) => after.afterKilled signal
    | _ => after

end Session

end SchemaModel.Shell
