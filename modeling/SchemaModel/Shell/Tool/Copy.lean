import SchemaModel.Shell.Tool.Basic

/-!
# The tool that copies files

A file that is there already is overwritten, after a question if that is wanted, or left as it is;
it may be kept under another name.

* `Copying` — what the tool is asked to do;
* `Tool.runCopy` — copies files.
-/

namespace SchemaModel.Shell.Tool

/-- What is done about a file that is there already. -/
inductive Overwriting where
  | always
  | ask
  | skip
deriving DecidableEq, Repr

/-- How a file that is overwritten is kept. -/
inductive Backup where
  | none
  | simple
  | numbered
  | existing
deriving DecidableEq, Repr

/-- What the tool that copies files is asked to do. -/
structure Copying where
  isRecursive : Bool
  isVerbose : Bool
  isForced : Bool
  isPlainTarget : Bool
  links : Bool
  isEmpty : Bool
  removesFirst : Bool
  keepsPath : Bool
  overwriting : Overwriting := .always
  backup : Backup := .none
  suffix : String := "~"
  directory : Option String := none

/-- The options of the tool that copies files. -/
def copyKnown : Options.Known where
  names := [("archive", .nothing), ("attributes-only", .nothing), ("backup", .optional),
    ("context", .optional), ("copy-contents", .nothing), ("debug", .nothing),
    ("dereference", .nothing), ("force", .nothing), ("interactive", .nothing), ("link", .nothing),
    ("no-clobber", .nothing), ("no-dereference", .nothing), ("no-preserve", .required),
    ("no-target-directory", .nothing), ("one-file-system", .nothing), ("parents", .nothing),
    ("path", .nothing), ("preserve", .optional), ("recursive", .nothing),
    ("remove-destination", .nothing), ("reflink", .optional), ("sparse", .required),
    ("strip-trailing-slashes", .nothing), ("suffix", .required), ("symbolic-link", .nothing),
    ("target-directory", .required), ("update", .optional), ("verbose", .nothing),
    ("help", .nothing), ("version", .nothing)]
  letters := [('a', "archive"), ('b', "backup"), ('d', "d"), ('f', "force"), ('H', "H"),
    ('i', "interactive"), ('l', "link"), ('L', "dereference"), ('n', "no-clobber"),
    ('p', "preserve"), ('P', "no-dereference"), ('r', "recursive"), ('R', "recursive"),
    ('s', "symbolic-link"), ('S', "suffix"), ('t', "target-directory"),
    ('T', "no-target-directory"), ('u', "update"), ('v', "verbose"), ('x', "one-file-system"),
    ('Z', "context")]

/-! ### Options -/

/-- The ways to keep files that are overwritten. -/
def backupChoices : List (List String) :=
  [["none", "off"], ["simple", "never"], ["existing", "nil"], ["numbered", "t"]]

/-- What can be kept of a file. -/
def preserveChoices : List (List String) :=
  [["mode"], ["timestamps"], ["ownership"], ["links"], ["context"], ["xattr"], ["all"]]

/-- Whether a word holds only choices between its commas. -/
def checkEach (what : String) (choices : List (List String)) (word : String) :
    Except String Unit :=
  (word.splitOn ",").forM fun w => do let _ ← Options.choice what choices w

/-- What one option after others asks the tool to do. -/
def Copying.take (k : Copying) (option : String × Option String) : Except String Copying :=
  match option with
  | ("interactive", _) => .ok { k with overwriting := .ask }
  | ("no-clobber", _) => .ok { k with overwriting := .skip }
  | ("update", word) => do
    match ← Options.choice "--update" [["all"], ["none"], ["older"]] (word.getD "older") with
    | "all" => return { k with overwriting := .always }
    | _ => return { k with overwriting := .skip }
  | ("backup", word) => do
    match ← Options.choice "backup type" backupChoices (word.getD "existing") with
    | "none" => return { k with backup := .none }
    | "simple" => return { k with backup := .simple }
    | "numbered" => return { k with backup := .numbered }
    | _ => return { k with backup := .existing }
  | ("suffix", some suffix) =>
    let suffix := if suffix.isEmpty ∨ suffix.toList.contains '/' then "~" else suffix
    .ok { k with suffix, backup := if k.backup = .none then .existing else k.backup }
  | ("target-directory", some directory) =>
    if k.directory.isSome then .error "multiple target directories specified"
    else .ok { k with directory := some directory }
  | ("preserve", some word) => do
    checkEach "--preserve" preserveChoices word
    return k
  | ("no-preserve", some word) => do
    checkEach "--no-preserve" preserveChoices word
    return k
  | ("sparse", some word) => do
    let _ ← Options.choice "--sparse" [["never"], ["auto"], ["always"]] word
    return k
  | ("reflink", some word) => do
    let _ ← Options.choice "--reflink" [["auto"], ["always"], ["never"]] word
    return k
  | _ => .ok k

/-- What options ask the tool to do. -/
def Copying.ofOptions (o : Options) : Except String Copying :=
  let plain : Copying := {
    isRecursive := o.has ["archive", "recursive"]
    isVerbose := o.has ["verbose", "debug"]
    isForced := o.has ["force"]
    isPlainTarget := o.has ["no-target-directory"]
    links := o.has ["link"]
    isEmpty := o.has ["attributes-only"]
    removesFirst := o.has ["remove-destination"]
    keepsPath := o.has ["parents", "path"] }
  o.given.foldlM Copying.take plain

/-! ### Keeping what is overwritten -/

/-- The greatest number of the files that have been kept of a file. -/
def keptCount (t : FileTree) (target : String) : Nat :=
  let name := (PathName.fileName? target).getD ""
  let directory := String.ofList (target.toList.take (target.length - name.length))
  let entries := t.entriesAt (if directory.isEmpty then "." else directory)
  let start := (name ++ ".~").toList
  let numbers := entries.filterMap fun e =>
    let rest := e.1.toList.drop start.length
    if start.isPrefixOf e.1.toList ∧ rest.getLast? = some '~' then
      (String.ofList rest.dropLast).toNat?
    else none
  numbers.foldl max 0

/-- The name that a file is kept under. -/
def keptName (k : Copying) (t : FileTree) (target : String) : String :=
  let count := keptCount t target
  if k.backup = .numbered ∨ k.backup = .existing ∧ 0 < count then
    target ++ ".~" ++ toString (count + 1) ++ "~"
  else target ++ k.suffix

/-- Removes what is at a path, or puts it under another name. -/
def moveAway (target : String) (other : Option String) (t : FileTree) : FileTree :=
  match t.entry target, t.lastStep target with
  | .ok e, .ok (place, last, _) =>
    let gone := t.removeAt place last
    match other.map t.lastStep with
    | some (.ok (place, last, _)) => gone.putAt place last e
    | _ => gone
  | _, _ => t

/-! ### Copying -/

/-- The files that stand for what is printed. -/
def outputPath? : String → Option Nat
  | "/dev/stdout" | "/dev/fd/1" => some 1
  | "/dev/stderr" | "/dev/fd/2" => some 2
  | _ => none

/-- A copy as it is told of. -/
def copyLine (source target : String) : String :=
  Quoted.name source ++ " -> " ++ Quoted.name target

/-- Writes a copy, which has been told of, to another path. -/
def writeCopy (c : Call) (k : Copying) (content : ByteArray) (source target : String) (w : Work) :
    Work :=
  let there := (w.tree.readBytes target).toOption
  let content := if k.isEmpty then there.getD ByteArray.empty else content
  if k.links ∧ !k.isForced ∧ there.isSome then
    if there.map (·.data) = some content.data then w
    else
      w.complain c ("cannot create hard link " ++ Quoted.name target ++ " to " ++
        Quoted.name source ++ ": " ++ OsError.fileExists.name)
  else
    match outputPath? target with
    | some 1 => w.print content
    | some n => { w with printed := (n, content) :: w.printed }
    | none =>
      match w.tree.writeBytes target content with
      | .ok tree => { w with tree }
      | .error e =>
        let e := if PathName.endsInSlash target then OsError.notADirectory else e
        w.complain c ("cannot create regular file " ++ Quoted.name target ++ ": " ++ e.name)

/-- Makes way for a copy, and tells of it. -/
def announceCopy (k : Copying) (isThere : Bool) (source target : String) (w : Work) : Work :=
  if isThere ∧ k.backup ≠ .none then
    let kept := keptName k w.tree target
    { w with tree := moveAway target (some kept) w.tree }.report k.isVerbose
      [copyLine source target ++ " (backup: " ++ Quoted.name kept ++ ")"]
  else if isThere ∧ k.removesFirst then
    { w with tree := moveAway target none w.tree }.report k.isVerbose
      ["removed " ++ Quoted.name target, copyLine source target]
  else w.report k.isVerbose [copyLine source target]

/-- Copies what has been found under a path to another path. -/
def copyFile (c : Call) (k : Copying) (content : ByteArray) (source target : String) (w : Work) :
    Work :=
  let go (isThere : Bool) (w : Work) : Work :=
    writeCopy c k content source target (announceCopy k isThere source target w)
  match w.tree.entry target with
  | .error .notADirectory =>
    w.complain c ("cannot stat " ++ Quoted.name target ++ ": " ++ OsError.notADirectory.name)
  | .error _ => go false w
  | .ok e =>
    let (isWanted, w) :=
      match k.overwriting with
      | .always => (true, w)
      | .skip => (false, w)
      | .ask =>
        let (isYes, w) := w.ask c ("overwrite " ++ Quoted.name target)
        (isYes, if isYes then w else { w with status := 1 })
    if !isWanted then w
    else if e.isDirectory then
      w.complain c ("cannot overwrite directory " ++ Quoted.name target ++ " with non-directory")
    else go true w

/-- Makes the directory that entries are copied to, unless it is there.  The flag says whether it
can be copied to. -/
def copyDirectory (c : Call) (k : Copying) (source target : String) (w : Work) : Bool × Work :=
  match w.tree.entry target with
  | .ok (.directory _) => (true, w)
  | .ok _ =>
    (false, w.complain c ("cannot overwrite non-directory " ++ Quoted.name target ++
      " with directory " ++ Quoted.name source))
  | .error .notADirectory =>
    (false, w.complain c ("cannot stat " ++ Quoted.name target ++ ": " ++
      OsError.notADirectory.name))
  | .error _ =>
    match w.tree.makeDirectory target with
    | .ok tree => (true, { w with tree }.report k.isVerbose [copyLine source target])
    | .error e =>
      (false, w.complain c ("cannot create directory " ++ Quoted.name target ++ ": " ++ e.name))

mutual

/-- Copies an entry with all that is below it. -/
def copyEntry (c : Call) (k : Copying) (source target : String) (w : Work) : Entry → Work
  | .file content => copyFile c k content source target w
  | .device => copyFile c k ByteArray.empty source target w
  | .directory entries =>
    match copyDirectory c k source target w with
    | (true, w) => copyEntries c k source target w entries
    | (false, w) => w
termination_by structural e => e

/-- Copies the entries of a directory. -/
def copyEntries (c : Call) (k : Copying) (source target : String) (w : Work) :
    List (String × Entry) → Work
  | [] => w
  | (name, e) :: rest =>
    copyEntries c k source target
      (copyEntry c k (PathName.join source name) (PathName.join target name) w e) rest
termination_by structural es => es

end

/-- What is copied from a path. -/
def sourceEntry (c : Call) (w : Work) (source : String) : Except OsError Entry :=
  if isInputPath source then c.input.map Entry.file else w.tree.entry source

/-- Copies one operand to a path. -/
def copyTo (c : Call) (k : Copying) (source target : String) (w : Work) : Work :=
  match sourceEntry c w source with
  | .error e => w.complain c ("cannot stat " ++ Quoted.name source ++ ": " ++ e.name)
  | .ok e =>
    let w := if isInputPath source then { w with readsInput := true } else w
    if e.isDirectory ∧ !k.isRecursive then
      w.complain c ("-r not specified; omitting directory " ++ Quoted.name source)
    else
      match placeOf w.tree source, placeOf w.tree target with
      | .ok a, .ok b =>
        if a = b ∧ w.tree.hasEntry target ∧ k.overwriting ≠ .skip then
          w.complain c (Quoted.name source ++ " and " ++ Quoted.name target ++
            " are the same file")
        else
          let w := copyEntry c k source target w e
          if e.isDirectory ∧ a.isPrefixOf b then
            w.complain c ("cannot copy a directory, " ++ Quoted.name source ++
              ", into itself, " ++ Quoted.name target)
          else w
      | _, _ => copyEntry c k source target w e

/-- Makes the directories above a copy that keeps the path of its source, below a directory. -/
def makeParents (c : Call) (k : Copying) (directory : String) (w : Work) :
    List String → String → Work
  | [], _ | [_], _ => w
  | step :: rest, above =>
    let source := if above.isEmpty then step else above ++ "/" ++ step
    let target := PathName.join directory source
    let w :=
      if w.tree.hasEntry target then w
      else
        match w.tree.makeDirectory target with
        | .ok tree => { w with tree }.report k.isVerbose [source ++ " -> " ++ target]
        | .error e =>
          w.complain c ("cannot make directory " ++ Quoted.name target ++ ": " ++ e.name)
    makeParents c k directory w rest source

/-- Copies one operand into a directory. -/
def copyInto (c : Call) (k : Copying) (directory source : String) (w : Work) : Work :=
  if k.keepsPath then
    let steps := FileTree.steps source
    copyTo c k source (PathName.join directory ("/".intercalate steps))
      (makeParents c k directory w steps "")
  else copyTo c k source (PathName.join directory ((PathName.fileName? source).getD "")) w

/-- Copies operands into a directory, after some others.  One that has been copied already is passed
over, and a copy is not overwritten by that of another operand. -/
def copyAll (c : Call) (k : Copying) (directory : String) (earlier : List String) (w : Work) :
    List String → Work
  | [] => w
  | source :: rest =>
    let place (path : String) : Option (List String) := (placeOf w.tree path).toOption
    let name := PathName.fileName? source
    let target := PathName.join directory (name.getD "")
    let w :=
      if !w.tree.hasEntry source ∨ k.keepsPath then copyInto c k directory source w
      else if earlier.any fun other => place other = place source then
        w.warn c ("warning: source file " ++ Quoted.name source ++ " specified more than once")
      else if k.backup ≠ .numbered ∧ place target ≠ place source ∧
          earlier.any fun other => PathName.fileName? other = name then
        w.complain c ("will not overwrite just-created " ++ Quoted.name target ++ " with " ++
          Quoted.name source)
      else copyInto c k directory source w
    copyAll c k directory (source :: earlier) w rest

/-! ### Operands -/

/-- Copies operands into the directory that an option names, or complains of it. -/
def copyToNamed (c : Call) (k : Copying) (directory : String) (operands : List String) (w : Work) :
    Work :=
  let fail (e : OsError) : Work :=
    w.complain c ("target directory " ++ Quoted.name directory ++ ": " ++ e.name)
  match w.tree.entry directory with
  | .ok (.directory _) =>
    if operands.isEmpty then w.misuse c "missing file operand"
    else copyAll c k directory [] w operands
  | .ok _ => fail .notADirectory
  | .error e => fail e

/-- Copies operands, the last of which says where to. -/
def copyOperands (c : Call) (k : Copying) (operands : List String) (w : Work) : Work :=
  let badTarget (target : String) (e : OsError) : Work :=
    w.complain c ("target " ++ Quoted.name target ++ ": " ++ e.name)
  match operands.reverse with
  | [] => w.misuse c "missing file operand"
  | [source] => w.misuse c ("missing destination file operand after " ++ Quoted.name source)
  | target :: source :: more =>
    let isDirectory := w.tree.hasDirectory target
    if k.isPlainTarget then
      match operands with
      | _ :: _ :: extra :: _ => w.misuse c ("extra operand " ++ Quoted.name extra)
      | _ => copyTo c k source target w
    else if isDirectory then
      if more.isEmpty then copyInto c k target source w
      else copyAll c k target [] w (source :: more).reverse
    else if !more.isEmpty then
      match w.tree.entry target with
      | .ok _ => badTarget target .notADirectory
      | .error e => badTarget target e
    else if k.keepsPath then
      w.misuse c "with --parents, the destination must be a directory"
    else copyTo c k source target w

/-- A path without the slashes at its end. -/
def withoutSlashes (path : String) : String :=
  let shown := (path.toList.reverse.dropWhile (· = '/')).reverse
  if shown.isEmpty then path else String.ofList shown

/-- The warning about an option whose meaning differs from system to system. -/
def clobberWarning : String :=
  "warning: behavior of -n is non-portable and may change in future; use --update=none instead"

/-- Copies files; the last operand says where to, unless an option does. -/
def runCopy (c : Call) (w : Work) : Work :=
  match Options.read copyKnown c.arguments with
  | .error e => w.misuse c e.message
  | .ok o =>
    if o.isAboutItself then w
    else
      let w := if o.has ["no-clobber"] then w.warn c clobberWarning else w
      match Copying.ofOptions o with
      | .error message =>
        if 1 < (o.values "target-directory").length then w.complain c message
        else w.misuse c message
      | .ok k =>
        let operands :=
          if o.has ["strip-trailing-slashes"] then o.operands.map withoutSlashes else o.operands
        match k.directory with
        | none => copyOperands c k operands w
        | some directory =>
          if k.isPlainTarget then
            w.complain c
              "cannot combine --target-directory (-t) and --no-target-directory (-T)"
          else copyToNamed c k directory operands w

end SchemaModel.Shell.Tool
