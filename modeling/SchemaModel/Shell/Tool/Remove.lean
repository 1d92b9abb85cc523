import SchemaModel.Shell.Tool.Basic

/-!
# The tool that removes files

It may ask before it removes anything, or once before it removes a lot.

* `Tool.runRemove` — removes files, and directories if asked to.
-/

namespace SchemaModel.Shell.Tool

/-- How the tool asks: never, once before it removes a lot, or before each step. -/
inductive Asking where
  | never
  | once
  | always
deriving DecidableEq, Repr

/-- What the tool that removes files is asked to do. -/
structure Removal where
  isRecursive : Bool
  takesDirectories : Bool
  isVerbose : Bool
  asking : Asking := .never
  ignoresMissing : Bool := false

/-- The options of the tool that removes files. -/
def removeKnown : Options.Known where
  names := [("force", .nothing), ("interactive", .optional), ("one-file-system", .nothing),
    ("no-preserve-root", .nothing), ("preserve-root", .optional), ("recursive", .nothing),
    ("dir", .nothing), ("verbose", .nothing), ("help", .nothing), ("version", .nothing)]
  letters := [('d', "dir"), ('f', "force"), ('i', "i"), ('I', "I"), ('r', "recursive"),
    ('R', "recursive"), ('v', "verbose")]

/-- The answers to how the tool is to ask. -/
def askingChoices : List (List String) := [["never", "no", "none"], ["once"], ["always", "yes"]]

/-- What one option after others asks the tool to do. -/
def Removal.take (r : Removal) (option : String × Option String) : Except String Removal :=
  let once : Removal := { r with asking := .once, ignoresMissing := false }
  let always : Removal := { r with asking := .always, ignoresMissing := false }
  match option with
  | ("force", _) => .ok { r with asking := .never, ignoresMissing := true }
  | ("i", _) | ("interactive", none) => .ok always
  | ("I", _) => .ok once
  | ("interactive", some word) => do
    match ← Options.choice "--interactive" askingChoices word with
    | "never" => return { r with asking := .never }
    | "once" => return once
    | _ => return always
  | ("preserve-root", some word) =>
    if word = "all" then .ok r
    else .error ("unrecognized --preserve-root argument: " ++ Options.quoted word)
  | _ => .ok r

/-- What options ask the tool to do. -/
def Removal.ofOptions (o : Options) : Except String Removal :=
  let plain : Removal := {
    isRecursive := o.has ["recursive"], takesDirectories := o.has ["dir"]
    isVerbose := o.has ["verbose"] }
  o.given.foldlM Removal.take plain

/-- What a file is called in a question. -/
def kindOf : Entry → String
  | .file content => if content.isEmpty then "regular empty file" else "regular file"
  | .directory _ => "directory"
  | .device => "character special file"

/-- Asks before a step, if that is wanted. -/
def Removal.asks (r : Removal) (c : Call) (question : String) (w : Work) : Bool × Work :=
  if r.asking = .always then w.ask c question else (true, w)

/-- Removes what is at a path from its directory. -/
def removeHere (path : String) (w : Work) : Work :=
  match w.tree.lastStep path with
  | .ok (place, last, _) => { w with tree := w.tree.removeAt place last }
  | .error _ => w

/-- Removes a directory, if there is nothing left in it. -/
def removeDirectory (c : Call) (r : Removal) (path : String) (w : Work) : Work :=
  match r.asks c ("remove directory " ++ Quoted.name path) w with
  | (false, w) => w
  | (true, w) =>
    if (w.tree.entriesAt path).isEmpty then
      (removeHere path w).report r.isVerbose ["removed directory " ++ Quoted.name path]
    else
      w.complain c ("cannot remove " ++ Quoted.name path ++ ": " ++ OsError.directoryNotEmpty.name)

mutual

/-- Removes an entry with all that is below it. -/
def removeEntry (c : Call) (r : Removal) (path : String) (w : Work) : Entry → Work
  | .directory [] => removeDirectory c r path w
  | .directory entries =>
    match r.asks c ("descend into directory " ++ Quoted.name path) w with
    | (false, w) => w
    | (true, w) => removeDirectory c r path (removeEntries c r path w entries)
  | e =>
    match r.asks c ("remove " ++ kindOf e ++ " " ++ Quoted.name path) w with
    | (false, w) => w
    | (true, w) => (removeHere path w).report r.isVerbose ["removed " ++ Quoted.name path]
termination_by structural e => e

/-- Removes the entries of a directory. -/
def removeEntries (c : Call) (r : Removal) (path : String) (w : Work) :
    List (String × Entry) → Work
  | [] => w
  | (name, e) :: rest =>
    removeEntries c r path (removeEntry c r (PathName.join path name) w e) rest
termination_by structural es => es

end

/-- Removes one operand. -/
def removeOne (c : Call) (r : Removal) (path : String) (w : Work) : Work :=
  let fail (e : OsError) : Work :=
    w.complain c ("cannot remove " ++ Quoted.name path ++ ": " ++ e.name)
  match w.tree.entry path with
  | .error e =>
    if r.ignoresMissing ∧ (e = .noSuchFile ∨ e = .notADirectory) then w else fail e
  | .ok (.directory entries) =>
    let last := (FileTree.steps path).getLast?
    if !r.isRecursive then
      if !r.takesDirectories then fail .isADirectory
      else if !entries.isEmpty then fail .directoryNotEmpty
      else removeDirectory c r path w
    else if last = some "." ∨ last = some ".." then
      w.complain c ("refusing to remove '.' or '..' directory: skipping " ++ Quoted.name path)
    else if last.isNone then
      w.complain c ("it is dangerous to operate recursively on " ++ Quoted.name path ++
        (if path = "/" then "\n" else " (same as '/')\n") ++ c.name ++
        ": use --no-preserve-root to override this failsafe")
    else removeEntry c r path w (.directory entries)
  | .ok e => removeEntry c r path w e

/-- The question that is asked before a lot is removed. -/
def lotQuestion (r : Removal) (count : Nat) : String :=
  "remove " ++ toString count ++ (if count = 1 then " argument" else " arguments") ++
    if r.isRecursive then " recursively" else ""

/-- Removes files, and directories if asked to. -/
def runRemove (c : Call) (w : Work) : Work :=
  match Options.read removeKnown c.arguments with
  | .error e => w.misuse c e.message
  | .ok o =>
    match Removal.ofOptions o with
    | .error message =>
      if (o.values "preserve-root").any (·.isSome) then w.complain c message
      else w.misuse c message
    | .ok r =>
      let isLot := r.asking = .once && (r.isRecursive || decide (3 < o.operands.length))
      if o.isAboutItself then w
      else if o.operands.isEmpty then if r.ignoresMissing then w else w.misuse c "missing operand"
      else
        match if isLot then w.ask c (lotQuestion r o.operands.length) else (true, w) with
        | (false, w) => w
        | (true, w) => w.forAll o.operands (removeOne c r)

end SchemaModel.Shell.Tool
