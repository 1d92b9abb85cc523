import SchemaModel.PathName

/-!
# A tree of files

Directories hold entries under their names, files hold bytes.  A path name is followed step by
step from the working directory, or from the root if it is absolute; a step through anything but a
directory fails, as does one through a missing entry or one whose name is too long.

* `OsError` — why an operation fails;
* `Entry` — a file or a directory, entries in ascending order of their names;
* `FileTree.entry`, `FileTree.readText` — looking at a path;
* `FileTree.write`, `FileTree.makeDirectory`, `FileTree.removeAt` — changing what is there;
* `FileTree.makeDirectories` — a directory with all that is missing above it.
-/

namespace SchemaModel

/-- Why an operation on files, or the start of a program, fails.  A file tree knows the errors that
have names here; any other one has its wording and its number. -/
inductive OsError where
  | noSuchFile
  | argumentTooLong
  | badDescriptor
  | permissionDenied
  | fileExists
  | notADirectory
  | isADirectory
  | nameTooLong
  | directoryNotEmpty
  | notText
  | nulInName
  | nulInCommand
  | other (name : String) (number : Option Nat)
deriving DecidableEq, Repr

/-- The plain wording of an error. -/
def OsError.name : OsError → String
  | .noSuchFile => "No such file or directory"
  | .argumentTooLong => "Argument list too long"
  | .badDescriptor => "Bad file descriptor"
  | .permissionDenied => "Permission denied"
  | .fileExists => "File exists"
  | .notADirectory => "Not a directory"
  | .isADirectory => "Is a directory"
  | .nameTooLong => "File name too long"
  | .directoryNotEmpty => "Directory not empty"
  | .notText => "stream did not contain valid UTF-8"
  | .nulInName => "file name contained an unexpected NUL byte"
  | .nulInCommand => "nul byte found in provided data"
  | .other name _ => name

/-- The number of an error.  One that is found before the system is asked has none. -/
def OsError.number? : OsError → Option Nat
  | .noSuchFile => some 2
  | .argumentTooLong => some 7
  | .badDescriptor => some 9
  | .permissionDenied => some 13
  | .fileExists => some 17
  | .notADirectory => some 20
  | .isADirectory => some 21
  | .nameTooLong => some 36
  | .directoryNotEmpty => some 39
  | .notText | .nulInName | .nulInCommand => none
  | .other _ number => number

/-- The wording of an error with its number. -/
def OsError.message (e : OsError) : String :=
  match e.number? with
  | some n => e.name ++ " (os error " ++ toString n ++ ")"
  | none => e.name

/-- A file with its bytes, a directory with its entries in ascending order of names, or the empty
device, which reads as nothing and keeps nothing that is written to it. -/
inductive Entry where
  | file (content : ByteArray)
  | directory (entries : List (String × Entry))
  | device

namespace Entry

instance : Inhabited Entry := ⟨.directory []⟩

/-- Whether an entry is a directory. -/
def isDirectory : Entry → Bool
  | .directory _ => true
  | .file _ | .device => false

/-- Puts an entry under a name, in place of one that is there. -/
def put (name : String) (e : Entry) : List (String × Entry) → List (String × Entry)
  | [] => [(name, e)]
  | (n, old) :: rest =>
    if n = name then (name, e) :: rest
    else if name < n then (name, e) :: (n, old) :: rest
    else (n, old) :: put name e rest

/-- The entry that a list of names leads to. -/
def find? : Entry → List String → Option Entry
  | e, [] => some e
  | .directory entries, name :: rest => (entries.lookup name).bind (find? · rest)
  | .file _, _ :: _ | .device, _ :: _ => none

/-- Changes the entries of the directory that a list of names leads to. -/
def changeAt (change : List (String × Entry) → List (String × Entry)) :
    List String → Entry → Entry
  | [], .directory entries => .directory (change entries)
  | name :: rest, .directory entries =>
    match entries.lookup name with
    | some e => .directory (put name (changeAt change rest e) entries)
    | none => .directory entries
  | _, .file content => .file content
  | _, .device => .device

mutual

/-- The files below an entry with their path names, under a prefix. -/
def filesBelow (path : String) : Entry → List (String × ByteArray)
  | .file content => [(path, content)]
  | .directory entries => filesIn path entries
  | .device => []
termination_by structural e => e

/-- The files below the entries of a directory. -/
def filesIn (path : String) : List (String × Entry) → List (String × ByteArray)
  | [] => []
  | (name, e) :: rest => filesBelow (PathName.join path name) e ++ filesIn path rest
termination_by structural es => es

end

end Entry

/-- A root directory and the names that lead to the working directory. -/
structure FileTree where
  root : Entry
  home : List String

namespace FileTree

/-- The directories that are found in any root, and below one of them, which hold nothing that is
known of. -/
def usualDirectories : List (String × Entry) :=
  let empty (names : List String) : List (String × Entry) := names.map (·, .directory [])
  empty ["bin", "boot", "etc", "home", "lib", "media", "mnt", "opt", "proc", "root", "run", "sbin",
    "srv", "sys"] ++
    [("usr", .directory (empty ["bin", "lib", "local", "sbin", "share"])), ("var", .directory [])]

/-- A working directory with the given entries, alone in the directory above it.  The root also
holds the empty device. -/
def ofEntries (entries : List (String × Entry)) : FileTree :=
  let inOrder (entries : List (String × Entry)) : List (String × Entry) :=
    entries.mergeSort fun a b => decide (a.1 ≤ b.1)
  let devices := [("null", Entry.device)]
  let above := [("w", Entry.directory (inOrder entries))]
  let root := inOrder
    (("dev", .directory devices) :: ("tmp", .directory above) :: usualDirectories)
  ⟨.directory root, ["tmp", "w"]⟩

/-- A working directory with nothing in it. -/
def empty : FileTree := ofEntries []

/-- The most bytes of the name of an entry. -/
def nameLimit : Nat := 255

/-- The most bytes of a path name. -/
def pathLimit : Nat := 4095

/-- Whether a path name can be looked up. -/
def checkPath (path : String) : Except OsError Unit :=
  if path.toList.contains '\x00' then .error .nulInName
  else if path = "" then .error .noSuchFile
  else if pathLimit < path.utf8ByteSize then .error .nameTooLong
  else .ok ()

/-- The entries of the directory that names lead to. -/
def directoryAt (t : FileTree) (place : List String) :
    Except OsError (List (String × Entry)) :=
  match t.root.find? place with
  | none => .error .noSuchFile
  | some (.directory entries) => .ok entries
  | some _ => .error .notADirectory

/-- Follows steps from a directory given by its names. -/
def walk (t : FileTree) (place : List String) : List String → Except OsError (List String)
  | [] => .ok place
  | step :: rest => do
    let _ ← t.directoryAt place
    match step with
    | "." => t.walk place rest
    | ".." => t.walk place.dropLast rest
    | name =>
      if nameLimit < name.utf8ByteSize then .error .nameTooLong
      else t.walk (place ++ [name]) rest

/-- The steps of a path. -/
def steps (path : String) : List String := (PathName.parts path).filter (· ≠ "")

/-- Where a path starts. -/
def start (t : FileTree) (path : String) : List String :=
  if PathName.isAbsolute path then [] else t.home

/-- The entry at a path; a slash at the end asks for a directory. -/
def entry (t : FileTree) (path : String) : Except OsError Entry := do
  checkPath path
  let place ← t.walk (t.start path) (steps path)
  match t.root.find? place with
  | none => .error .noSuchFile
  | some e =>
    if PathName.endsInSlash path ∧ !e.isDirectory then .error .notADirectory else .ok e

/-- Whether there is anything at a path. -/
def hasEntry (t : FileTree) (path : String) : Bool := (t.entry path).isOk

/-- Whether there is a directory at a path. -/
def hasDirectory (t : FileTree) (path : String) : Bool :=
  match t.entry path with
  | .ok e => e.isDirectory
  | .error _ => false

/-- The entries of the directory at a path, in ascending order; none if it is no directory. -/
def entriesAt (t : FileTree) (path : String) : List (String × Entry) :=
  match t.entry path with
  | .ok (.directory entries) => entries
  | _ => []

/-- The bytes of the file at a path. -/
def readBytes (t : FileTree) (path : String) : Except OsError ByteArray := do
  match ← t.entry path with
  | .file content => .ok content
  | .directory _ => .error .isADirectory
  | .device => .ok ByteArray.empty

/-- The text of the file at a path. -/
def readText (t : FileTree) (path : String) : Except OsError String := do
  match String.fromUTF8? (← t.readBytes path) with
  | some text => .ok text
  | none => .error .notText

/-- The directory that a path's last step is taken in, with that step and the entry it leads to;
dots lead to a directory. -/
def lastStep (t : FileTree) (path : String) :
    Except OsError (List String × String × Option Entry) := do
  checkPath path
  let steps := steps path
  match steps.getLast? with
  | none => .ok ([], ".", some t.root)
  | some last =>
    let place ← t.walk (t.start path) steps.dropLast
    let entries ← t.directoryAt place
    if last = "." ∨ last = ".." then .ok (place, last, some (.directory entries))
    else if nameLimit < last.utf8ByteSize then .error .nameTooLong
    else .ok (place, last, entries.lookup last)

/-- The tree with an entry put under a name of a directory. -/
def putAt (t : FileTree) (place : List String) (name : String) (e : Entry) : FileTree :=
  { t with root := t.root.changeAt (Entry.put name e) place }

/-- Writes a file, in place of one that is there. -/
def writeBytes (t : FileTree) (path : String) (content : ByteArray) : Except OsError FileTree := do
  let (place, last, there) ← t.lastStep path
  match there with
  | some (.directory _) => .error .isADirectory
  | some .device => if PathName.endsInSlash path then .error .isADirectory else .ok t
  | some (.file _) | none =>
    if PathName.endsInSlash path then .error .isADirectory
    else .ok (t.putAt place last (.file content))

/-- Writes a text. -/
def write (t : FileTree) (path text : String) : Except OsError FileTree :=
  t.writeBytes path text.toUTF8

/-- Makes a directory where nothing is. -/
def makeDirectory (t : FileTree) (path : String) : Except OsError FileTree := do
  let (place, last, there) ← t.lastStep path
  match there with
  | some _ => .error .fileExists
  | none => .ok (t.putAt place last (.directory []))

/-- The tree without the entry under a name of a directory. -/
def removeAt (t : FileTree) (place : List String) (name : String) : FileTree :=
  { t with root := t.root.changeAt (·.filter (·.1 ≠ name)) place }

/-- Makes the first directory of a list of paths, each of which is above the one before, and
first those above it that are missing. -/
def makeAll (t : FileTree) : List String → FileTree × Option OsError
  | [] => (t, none)
  | path :: above =>
    match t.makeDirectory path with
    | .ok t => (t, none)
    | .error .noSuchFile =>
      match t.makeAll above with
      | (t, some e) => (t, some e)
      | (t, none) =>
        match t.makeDirectory path with
        | .ok t => (t, none)
        | .error e => (t, if t.hasDirectory path then none else some e)
    | .error e => (t, if t.hasDirectory path then none else some e)

/-- Makes a directory with all that is missing above it. -/
def makeDirectories (t : FileTree) (path : String) : FileTree × Option OsError :=
  t.makeAll (PathName.upwards path)

/-- The files below the working directory with their path names, in ascending order. -/
def files (t : FileTree) : List (String × ByteArray) :=
  match t.root.find? t.home with
  | some e => (e.filesBelow "").mergeSort fun a b => decide (a.1 ≤ b.1)
  | none => []

/-- The files that are new or have changed. -/
def changes (before after : FileTree) : List (String × ByteArray) :=
  let old := before.files
  after.files.filter fun f =>
    match old.lookup f.1 with
    | some content => decide (content.data ≠ f.2.data)
    | none => true

end FileTree

end SchemaModel
