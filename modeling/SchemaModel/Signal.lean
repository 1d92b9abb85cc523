/-!
# Signals

A signal ends a process that does not attend to it, unless it is one of those that are ignored by
default.

* `Signal.name?` — the name of a signal;
* `Signal.ofName?` — the signal of a name, without the letters that all names start with;
* `Signal.label`, `Signal.ofLabel?` — what scripts call a signal;
* `Signal.description` — a signal in words;
* `Signal.isFatal` — whether a signal ends a process.
-/

namespace SchemaModel.Signal

/-- The names of the signals in order, the first of which is number one, without the letters that
all names start with. -/
def names : List String :=
  ["HUP", "INT", "QUIT", "ILL", "TRAP", "ABRT", "BUS", "FPE", "KILL", "USR1", "SEGV", "USR2",
    "PIPE", "ALRM", "TERM", "STKFLT", "CHLD", "CONT", "STOP", "TSTP", "TTIN", "TTOU", "URG",
    "XCPU", "XFSZ", "VTALRM", "PROF", "WINCH", "IO", "PWR", "SYS"]

/-- The greatest number of a signal, the ones without names included. -/
def limit : Nat := 64

/-- The name of a signal. -/
def name? (signal : Nat) : Option String :=
  if signal = 0 then none else names[signal - 1]?.map ("SIG" ++ ·)

/-- The signal of a name. -/
def ofName? (name : String) : Option Nat := (names.findIdx? (· = name)).map (· + 1)

/-- The signal of a calculation that cannot be done. -/
def arithmetic : Nat := 8

/-- The signal of a process that needs more memory than it has. -/
def overrun : Nat := 11

/-- What scripts call a signal: zero is the end of the shell, those without names are called by
their numbers, and those at the end by how far they are from the first or the last of them. -/
def label (signal : Nat) : String :=
  if signal = 0 then "EXIT"
  else if signal = 34 then "RTMIN"
  else if signal = limit then "RTMAX"
  else if 34 < signal ∧ signal < 50 then "RTMIN+" ++ toString (signal - 34)
  else if 50 ≤ signal ∧ signal < limit then "RTMAX-" ++ toString (limit - signal)
  else if signal = 16 then toString signal
  else (names[signal - 1]?).getD (toString signal)

/-- The signal that scripts call by a name, in letters of any case. -/
def ofLabel? (name : String) : Option Nat :=
  let upper (text : String) : List Char := text.toList.map Char.toUpper
  (List.range (limit + 1)).find? fun signal => upper (label signal) == upper name

/-- The signals in words, by their names. -/
def words : List (String × String) :=
  [("HUP", "Hangup"), ("INT", "Interrupt"), ("QUIT", "Quit"), ("ILL", "Illegal instruction"),
    ("TRAP", "Trace/breakpoint trap"), ("ABRT", "Aborted"), ("BUS", "Bus error"),
    ("FPE", "Floating point exception"), ("KILL", "Killed"), ("USR1", "User defined signal 1"),
    ("SEGV", "Segmentation fault"), ("USR2", "User defined signal 2"), ("PIPE", "Broken pipe"),
    ("ALRM", "Alarm clock"), ("TERM", "Terminated"), ("STKFLT", "Stack fault"),
    ("XCPU", "CPU time limit exceeded"), ("XFSZ", "File size limit exceeded"),
    ("VTALRM", "Virtual timer expired"), ("PROF", "Profiling timer expired"),
    ("IO", "I/O possible"), ("PWR", "Power failure"), ("SYS", "Bad system call")]

/-- A signal in words. -/
def description (signal : Nat) : String :=
  match if signal = 0 then none else names[signal - 1]?.bind (words.lookup ·) with
  | some text => text
  | none =>
    if 34 ≤ signal ∧ signal ≤ limit then "Real-time signal " ++ toString (signal - 34)
    else "Unknown signal " ++ toString signal

/-- The signals that stop a process or leave it alone. -/
def harmless : List Nat :=
  ["CHLD", "CONT", "STOP", "TSTP", "TTIN", "TTOU", "URG", "WINCH"].filterMap ofName?

/-- Whether a signal ends a process. -/
def isFatal (signal : Nat) : Bool :=
  signal ≠ 0 && decide (signal ≤ limit) && !harmless.contains signal

/-- A signal as it is shown: its number, and its name if it has one. -/
def shown (signal : Nat) : String :=
  match name? signal with
  | some name => toString signal ++ " (" ++ name ++ ")"
  | none => toString signal

end SchemaModel.Signal
