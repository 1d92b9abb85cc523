import SchemaModel.Shell.Invocation

/-!
# Simple commands

A simple command names a function, a command of the shell or a program, and gives it arguments.
What is assigned or led elsewhere for the command alone is undone after it.

* `Call` — what a simple command calls;
* `Simple.program`, `Simple.function`, `Simple.builtin` — the three kinds of calls;
* `Simple.run` — runs a simple command.
-/

namespace SchemaModel.Shell

/-- What a simple command calls: a name with arguments, whether no function can be meant, and the
directories that a program is looked for in, if they are not those of the shell. -/
structure Call where
  words : List String
  passesFunctions : Bool := false
  path : Option String := none

namespace Call

/-- What is called after the word that passes functions over and its options; nothing is if names
are to be described. -/
def passing (path : Option String) : List String → Option Call
  | [] | ["--"] => none
  | "--" :: "command" :: rest =>
    some ((passing path rest).getD { words := "command" :: rest, passesFunctions := true, path })
  | "--" :: word :: rest => some { words := word :: rest, passesFunctions := true, path }
  | "command" :: rest =>
    some ((passing path rest).getD { words := "command" :: rest, passesFunctions := true, path })
  | word :: rest =>
    match word.toList with
    | '-' :: c :: cs =>
      if (c :: cs).all (· = 'p') then passing (some Session.usualPath) rest else none
    | _ => some { words := word :: rest, passesFunctions := true, path }

/-- What the fields of a command call. -/
def ofFields (s : Session) (fields : List String) : Call :=
  match fields with
  | "command" :: rest =>
    if (s.functions.lookup "command").isSome then { words := fields }
    else (passing none rest).getD { words := fields }
  | fields => { words := fields }

/-- The function that is called. -/
def function? (c : Call) (s : Session) : Option Command :=
  if c.passesFunctions then none else s.functions.lookup (c.words.headD "")

/-- Whether what is called keeps assignments, and ends the shell when it fails. -/
def isSpecial (c : Call) : Bool := !c.passesFunctions && Shell.isSpecial (c.words.headD "")

/-- Whether arguments may set variables. -/
def setsVariables (c : Call) (s : Session) : Bool :=
  (c.function? s).isNone && Builtin.setsVariables (c.words.headD "")

/-- Whether more words cannot change what is called. -/
def isSettled (c : Call) : Bool := c.words.headD "" != "" && c.words.headD "" != "command"

end Call

namespace Simple

/-! ### Programs -/

/-- Runs a tool. -/
def tool (t : Tool) (name : String) (arguments : List String) (s : Session) : Session :=
  let (input, drained) := s.takeInput
  let source := s.placeOf Session.input
  let sink := s.placeOf Session.output
  let hasInput := s.isOpen Session.input
  let hasOutput := s.isOpen Session.output
  let isWritten := s.isWritten Session.output
  let o := t.run s.tree
    { name, arguments, input, source, sink, hasInput, hasOutput, isWritten }
  let s := if o.readsInput then drained else s
  o.printed.foldl (fun s p => s.send p.1 p.2) { s.withTree o.tree with status := o.status }

/-- Tells why a program cannot be started. -/
def notStarted (replaces : Bool) (name : String) (e : OsError) (s : Session) : Session :=
  let e := if name.isEmpty then .permissionDenied else e
  let reason := if e = .noSuchFile ∨ e = .notADirectory then "not found" else e.name
  let isFound :=
    e = .argumentTooLong ∨ (replaces ∨ name.toList.contains '/') ∧ e = .permissionDenied
  { s.complain (name ++ ": " ++ reason) with status := if isFound then 126 else 127 }

/-- Runs a program by its name, which may take the place of the shell. -/
def program (again : Runner) (replaces : Bool) (path name : String) (arguments : List String)
    (s : Session) : Session :=
  match Program.startable s.tree path name arguments with
  | .error e => notStarted replaces name e s
  | .ok (found, _) =>
    let s := if replaces then { s with traps := [] } else Builtin.located s name
    match found with
    | .tool t => tool t name arguments s
    | .shell => Invocation.runBelow again replaces name arguments s

/-- Runs a program in place of the shell. -/
def replace (again : Runner) (name : String) (arguments : List String) (s : Session) : Session :=
  let r := program again true s.path name arguments { s with within := some "exec" }
  let r := { r with within := s.within }
  if r.isEnded then r else { r with ending := some .exit }

/-! ### Functions and scripts -/

/-- The most functions that can be under way. -/
def callLimit : Nat := 1000

/-- The session after a function or the script of a file has been left. -/
def returned (s : Session) : Session :=
  if s.ending = some .back then { s with ending := none } else s

/-- Runs the body of a function with its arguments. -/
def function (again : Runner) (tested : Bool) (body : Command) (arguments : List String)
    (s : Session) : Session :=
  if callLimit ≤ s.calls then
    s.abort ("Maximum function recursion depth (" ++ toString callLimit ++ ") reached")
  else
    let start := { s with
      arguments := s.name :: arguments, optionPlace := {}, loops := 0, locals := some []
      calls := s.calls + 1 }
    let r := again tested body start
    let after := { r with
      arguments := s.arguments, optionPlace := s.optionPlace, loops := s.loops, calls := s.calls }
    returned (after.unwound (r.locals.getD []) s.locals)

/-- The path of a script: a name without slashes is looked for among the directories of
programs. -/
def scriptPath? (s : Session) (name : String) : Option String :=
  if name.toList.contains '/' then some name
  else
    (Program.candidates s.path name).find? fun path =>
      match s.tree.entry path with
      | .ok (.file _) => true
      | _ => false

/-- Runs the script in a file. -/
def sourceFile (again : Runner) (name : String) (s : Session) : Session :=
  match scriptPath? s name with
  | none => s.abort (name ++ ": not found")
  | some path =>
    match s.tree.readBytes path with
    | .ok bytes =>
      returned (Script.runWithin again { showsLines := true } path (Text.lossy bytes).toList s)
    | .error .isADirectory => { s with status := 0 }
    | .error e => s.abort (Session.openingError false path e)

/-- Runs the script in a file that is named by arguments, if there is one. -/
def source (again : Runner) (arguments : List String) (s : Session) : Session :=
  let named := { s with within := some "." }
  let r :=
    match Letters.read "" "" arguments with
    | .error e => named.abort e
    | .ok l => l.operands.head?.elim (Builtin.done s 0) (sourceFile again · named)
  { r with within := s.within }

/-! ### Commands of the shell -/

/-- The session after a command whose output may be lost. -/
def told (s : Session) : Session :=
  if s.isOutputLost then
    let message := s.within.getD "" ++ ": I/O error"
    { s.complain message with status := Nat.lor s.status 1, isOutputLost := false }
  else s

/-- Runs a command of the shell, the special ones of which end it when they fail. -/
def builtin (run : Builtin) (name : String) (arguments : List String) (s : Session) : Session :=
  let r := told (run arguments { s with within := some name, isOutputLost := false })
  let r := { r with within := s.within }
  if isSpecial name ∧ 1 < r.status ∧ !r.isEnded then { r with ending := some .failed } else r

/-- Runs what is no function. -/
def plain (again : Runner) (tested : Bool) (path name : String) (arguments : List String)
    (s : Session) : Session :=
  match name, arguments with
  | "eval", arguments =>
    Script.runWithin again { tested } "eval" (" ".intercalate arguments).toList s
  | "exec", [] => Builtin.done s 0
  | "exec", other :: rest => replace again other rest s
  | ".", arguments => source again arguments s
  | "command", arguments => builtin (Builtin.describeFirst Builtin.isName) "command" arguments s
  | name, arguments =>
    match Builtin.find? name with
    | some run => builtin run name arguments s
    | none => program again false path name arguments s

/-- Runs a command that keeps what it makes local to itself, and whose failure does not end the
shell. -/
def bounded (run : Session → Session) (s : Session) : Session :=
  let r := run { s with locals := some [] }
  let r := if r.ending = some .failed then { r with ending := none } else r
  r.unwound (r.locals.getD []) s.locals

/-- Runs what a command calls. -/
def call (again : Runner) (tested : Bool) (c : Call) (s : Session) : Session :=
  match c.words, c.function? s with
  | [], _ => s
  | _ :: arguments, some body => function again tested body arguments s
  | name :: arguments, none =>
    let run (s : Session) : Session := plain again tested (c.path.getD s.path) name arguments s
    if c.passesFunctions then bounded run s else run s

/-! ### Words -/

/-- The text of a value that is assigned. -/
def assigned (again : Runner) (w : Word) : Expanding String :=
  Expand.text (Script.outputOf again) { atStart := true, afterColons := true } w

/-- The fields of words, after those at the start that tell what is called.  An argument that sets a
variable is not parted. -/
def fields (again : Runner) (front : List String) : List Word → Expanding (List String)
  | [] => return []
  | w :: rest => do
    let c := Call.ofFields (← get) front
    let found ←
      match if c.setsVariables (← get) then Word.assignment? w else none with
      | some (name, value) =>
        let text ← assigned again value
        pure [name ++ "=" ++ text]
      | none => Expand.fields (Script.outputOf again) w
    let others ← fields again (if c.isSettled then front else front ++ found) rest
    return found ++ others

/-- Gives variables their values, which may be for a command alone.  The texts of the assignments,
and what the variables were, the last one first. -/
def assignAll (again : Runner) (isLocal isHandedOn : Bool) :
    List (String × Word) → List Kept → Expanding (List String × List Kept)
  | [], before => return ([], before)
  | (name, w) :: rest, before => do
    let value ← assigned again w
    let s ← get
    match s.assign name value with
    | .ok after =>
      set (if isLocal ∨ isHandedOn then after.handOn name else after)
      let before := if isLocal then s.kept name :: before else before
      let (texts, before) ← assignAll again isLocal isHandedOn rest before
      return ((name ++ "=" ++ value) :: texts, before)
    | .error message => throw message

/-- Notes the place of the program that a command of a pipe starts, if its name is plain. -/
def prepared (c : Command) (s : Session) : Session :=
  match c with
  | .simple _ _ (w :: _) _ =>
    match (Word.literal? w).map String.ofList with
    | some name =>
      let isOther := (s.functions.lookup name).isSome || Builtin.isName name
      if Word.isName name.toList ∧ !isOther ∧ (Program.find s.tree s.path name).toOption.isSome then
        Builtin.located s name
      else s
    | none => s
  | _ => s

/-! ### Redirections -/

/-- A descriptor with the target that it is led to, or with the number of a document. -/
inductive Lead where
  | target (descriptor : Nat) (mode : Redirection.Mode) (text : String)
  | document (descriptor number : Nat)

/-- The targets of redirections. -/
def leads (again : Runner) : List Redirection → Expanding (List Lead)
  | [] => return []
  | .document descriptor number :: rest => do
    return .document descriptor number :: (← leads again rest)
  | .target descriptor mode w :: rest => do
    let text ← Expand.text (Script.outputOf again) { atStart := true } w
    if mode = .duplicate ∧ !Session.isDescriptor text then
      modify fun s => { s with line := s.lineRead }
      throw Fault.badDescriptor.message
    return .target descriptor mode text :: (← leads again rest)

/-- Leads descriptors elsewhere, one after another. -/
def follow (again : Runner) : List Lead → Expanding Unit
  | [] => return ()
  | .target descriptor mode text :: rest => do
    let s ← get
    match s.follow descriptor mode text with
    | .ok s => set s
    | .error message =>
      if mode = .duplicate then set (s.close descriptor)
      throw message
    follow again rest
  | .document descriptor number :: rest => do
    let w := ((← get).documents.lookup number).getD []
    let text ← Expand.text (Script.outputOf again) {} w
    modify (·.openDocument descriptor text)
    follow again rest

/-- Leads the descriptors of redirections back to where they led before. -/
def ledBack (redirections : List Redirection) (before after : Session) : Session :=
  let numbers := redirections.map Redirection.descriptor
  let isLed (p : Nat × Target) : Bool := numbers.contains p.1
  { after with
    descriptors := before.descriptors.filter isLed ++ after.descriptors.filter (!isLed ·) }

/-- Runs something with descriptors led elsewhere, if they can be, and leads them back unless they
are kept.  If they cannot be the command fails. -/
def redirected (again : Runner) (keeps : Bool) (redirections : List Redirection)
    (failed run : Session → Session) (s : Session) : Session :=
  Script.expanded (leads again redirections) s fun led s =>
    match (follow again led).run.run s with
    | (.error message, after) => ledBack redirections s (failed (after.fail message))
    | (.ok (), after) =>
      if after.isEnded then after
      else
        let r := run after
        if keeps then r else ledBack redirections s r

/-! ### Running a simple command -/

/-- Tells of a command that is about to be run, to where errors went before, if that is asked
for. -/
def traced (again : Runner) (descriptors : List (Nat × Target)) (texts : List String)
    (s : Session) : Session :=
  if s.has 'x' then
    let quiet := { s with flags := Flags.turned 'x' false s.flags }
    let (shown, after) := Script.prompt (Script.outputOf again) "PS4" quiet
    let line := shown ++ " ".intercalate texts ++ "\n"
    { { after with descriptors }.send Session.errors line.toUTF8 with
      descriptors := s.descriptors, flags := s.flags }
  else s

/-- Runs a simple command. -/
def run (again : Runner) (tested : Bool) (assignments : List (String × Word)) (words : List Word)
    (redirections : List Redirection) (s : Session) : Session :=
  Script.expanded (fields again [] words) { s with outputStatus := 0 } fun fields s =>
    let c := Call.ofFields s fields
    let name := c.words.headD ""
    let isExec := name = "exec" ∧ (c.function? s).isNone
    let isLocal := !fields.isEmpty && !c.isSpecial
    let isHandedOn : Bool := isExec ∧ 1 < c.words.length
    let failed (s : Session) : Session :=
      if c.isSpecial then { s with ending := some .failed } else s
    redirected again isExec redirections failed (fun led =>
      Script.expanded (assignAll again isLocal isHandedOn assignments []) led
        fun (texts, before) assigned =>
          let ready := traced again s.descriptors (texts ++ fields) assigned
          if fields.isEmpty then { ready with status := ready.outputStatus }
          else
            let r := call again tested c ready
            r.unwound before r.locals) s

end Simple

end SchemaModel.Shell
