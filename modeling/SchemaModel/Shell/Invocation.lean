import SchemaModel.Shell.Script

/-!
# A shell as a program

A shell is started with options and operands: the text of a script, the name of a file with one, or
nothing, when the script is what it is given as its input.  For a user it asks for each line and
goes on after a failure.

* `Invocation.run` — runs a shell by its name and arguments;
* `Invocation.runBelow` — runs a shell below another one, or in its place.
-/

namespace SchemaModel.Shell.Invocation

/-- The options of a shell at its start.  Those that are not set are shown as if they were on. -/
def startingFlags (s : Session) (steps : List Flags.Step) : Session :=
  let unset := { s with flags := Flags.names.map (·.2) }
  let shown := Builtin.setFlags unset (steps.filter (· matches .list _))
  { shown with flags := Flags.apply (steps.filter (· ≠ .turn 'm' true)) [] }

/-- A shell at the start of its script.  Jobs cannot be controlled, which is told if that is asked
for, be it for the sake of a user. -/
def started (steps : List Flags.Step) (arguments : List String) (s : Session) : Session :=
  let s := { s with arguments }
  let wishes := steps.filterMap fun step =>
    match step with
    | .turn 'm' isOn => some isOn
    | _ => none
  if wishes.getLast?.getD (s.has 'i') then s.complain Builtin.noJobControl else s

/-- How often a shell that does not heed the end of its lines tells how it can be left. -/
def reminders : Nat := 50

/-- Runs lines that come from a file or a user. -/
def listen (again : Runner) (bytes : ByteArray) (s : Session) : Session :=
  let m : Script.Manner := { showsLines := true, asksForLines := true }
  let s := Script.run again m (Text.lossy bytes).toList s
  let tell (text : String) (s : Session) : Session := s.send Session.errors text.toUTF8
  if s.isEnded then s
  else if s.has 'I' then
    reminders.repeat (fun s => Script.asked m "PS1" (tell "\nUse \"exit\" to leave shell.\n" s)) s
  else if s.has 'i' then tell "\n" s
  else s

/-- Runs the lines of the input. -/
def listenToInput (again : Runner) (s : Session) : Session :=
  match s.takeInput with
  | (.ok bytes, s) => listen again bytes s
  | (.error _, s) => s

/-- After a failure a shell with a user goes on with the input.  A second failure can only be one of
the input, after which there is none left. -/
def recovered (again : Runner) (s : Session) : Session :=
  let next (s : Session) : Session :=
    if s.ending = some .failed ∧ s.has 'i' then
      let unwound := { s with ending := none }.unwound (s.locals.getD []) none
      listenToInput again { unwound with ending := none, line := 0, loops := 0, calls := 0 }
    else s
  next (next s)

/-- Runs a shell by its name and arguments. -/
def run (again : Runner) (name : String) (arguments : List String) (s : Session) : Session :=
  let s := { s with arguments := [name] }
  match Flags.read ('c' :: 'l' :: Flags.letters) arguments with
  | .error e => s.abort e
  | .ok c =>
    let ended (s : Session) : Session := Script.finish again (recovered again s)
    let isText := c.steps.contains (.turn 'c' true)
    let readsInput : Bool := !isText ∧ c.operands.isEmpty
    let asInput := if readsInput then [Flags.Step.turn 's' true] else []
    let steps := c.steps.filter (· ≠ .turn 'c' true) ++ asInput
    let s := startingFlags s steps
    match isText, c.operands with
    | true, [] => s.abort "-c requires an argument"
    | true, script :: rest =>
      let start := started steps (if rest.isEmpty then [name] else rest) s
      let s := Script.run again {} script.toList start
      ended (if s.has 's' ∧ !s.isEnded then listenToInput again s else s)
    | false, operands =>
      if s.has 's' then
        ended (listenToInput again (started steps (name :: operands) s))
      else
        let path := operands.headD ""
        match s.tree.readBytes path with
        | .ok bytes => ended (listen again bytes (started steps operands s))
        | .error .isADirectory => s
        | .error e => s.abort (Session.openingError false path e)

/-- Runs a shell below another one, or in its place. -/
def runBelow (again : Runner) (replaces : Bool) (name : String) (arguments : List String)
    (s : Session) : Session :=
  let handed := s.bindings.filter fun v => s.exported.contains v.1
  let start : Session :=
    { tree := s.tree, channels := s.channels, descriptors := s.descriptors
      arguments := [name], number := s.number + 1, mask := s.mask, bounds := s.bounds
      bindings := Session.variablesFrom s.tree s.number handed
      exported := "PWD" :: handed.map (·.1) }
  let r := run again name arguments start
  let after : Session :=
    { s with
      tree := { r.tree with home := s.tree.home }, channels := r.channels
      status := Session.exitStatus r.status }
  match r.ending with
  | some (.killed signal) =>
    if replaces then { after with ending := r.ending } else after.afterKilled signal
  | _ => after

end SchemaModel.Shell.Invocation
