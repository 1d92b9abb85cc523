import SchemaModel.Shell.Numeral
import SchemaModel.Shell.Session

/-!
# Leading descriptors elsewhere

A descriptor is led to a file, which is opened first, to where another descriptor leads, or to a
text.

* `Session.follow` — leads a descriptor to a target;
* `Session.openDocument` — leads a descriptor to a text.
-/

namespace SchemaModel.Shell.Session

/-- The wording of an error where a file is opened. -/
def openingError (creating : Bool) (path : String) (e : OsError) : String :=
  let missing := e = .noSuchFile ∨ e = .notADirectory
  if creating then
    "cannot create " ++ path ++ ": " ++ if missing then "Directory nonexistent" else e.name
  else "cannot open " ++ path ++ ": " ++ if missing then "No such file" else e.name

/-- Leads a descriptor to an open file. -/
def directFile (s : Session) (n : Nat) (isRead isWritten : Bool) (f : OpenFile) : Session :=
  let (s, k) := s.openChannel (.file f)
  s.direct n (.file k isRead isWritten)

/-- Leads a descriptor to a file that is written, which is made if it is not there, and emptied
unless it is written at its end or may be read as well. -/
def openWriting (s : Session) (n : Nat) (mode : Redirection.Mode) (path : String) :
    Except String Session :=
  let opened : Except OsError Session := do
    let isKept : Bool := mode = .append ∨ mode = .readWrite
    let content := if isKept then s.tree.readBytes path else .ok ByteArray.empty
    let tree ← s.tree.writeBytes path (content.toOption.getD ByteArray.empty)
    match ← tree.lastStep path with
    | (_, _, some .device) => return { s with tree }.direct n .nowhere
    | (place, name, _) =>
      let atEnd : Bool := mode = .append
      let isRead : Bool := mode = .readWrite
      return { s with tree }.directFile n isRead true { place := place ++ [name], atEnd }
  opened.mapError (openingError true path)

/-- Leads a descriptor to a file that is read. -/
def openReading (s : Session) (n : Nat) (path : String) : Except String Session :=
  let place : Except OsError (List String) := do
    let _ ← s.tree.entry path
    s.tree.walk (s.tree.start path) (FileTree.steps path)
  match place with
  | .ok place => .ok (s.directFile n true false { place })
  | .error e => .error (openingError false path e)

/-- Leads a descriptor to a text. -/
def openDocument (s : Session) (n : Nat) (text : String) : Session :=
  let (s, k) := s.openChannel (.bytes text.toUTF8)
  s.direct n (.source k)

/-- The descriptor that stands for the terminal's channels among the paths. -/
def devicePath? : String → Option Nat
  | "/dev/stdin" => some input
  | "/dev/stdout" => some output
  | "/dev/stderr" => some errors
  | _ => none

/-- Whether a text names a descriptor: a digit, or a dash for none. -/
def isDescriptor (text : String) : Bool :=
  match text.toList with
  | [c] => c.isDigit || c = '-'
  | _ => false

/-- Leads a descriptor to where another one leads, or closes it. -/
def duplicate (s : Session) (n : Nat) (source : String) : Except String Session :=
  if source = "-" then .ok (s.close n)
  else
    match s.descriptors.lookup (Numeral.value 10 source.toList) with
    | some target => .ok (s.direct n target)
    | none => .error (source ++ ": Bad file descriptor")

/-- Why an option keeps what is at a path from being emptied, if it does. -/
def protection? (s : Session) (path : String) : Option String :=
  if !s.has 'C' then none
  else
    match s.tree.entry path with
    | .ok (.file _) => some (openingError true path .fileExists)
    | .ok (.directory _) => some (openingError false path .isADirectory)
    | _ => none

/-- Opens a file as a mode asks for. -/
def openFile (s : Session) (n : Nat) (mode : Redirection.Mode) (path : String) :
    Except String Session :=
  if mode = .read then s.openReading n path else s.openWriting n mode path

/-- Leads a descriptor to a target.  A file that another descriptor leads to is opened once more. -/
def follow (s : Session) (n : Nat) (mode : Redirection.Mode) (path : String) :
    Except String Session :=
  match mode, devicePath? path with
  | .duplicate, _ => s.duplicate n path
  | _, some other =>
    match s.descriptors.lookup other, s.placeOf other with
    | _, some place => s.openFile n mode ("/" ++ "/".intercalate place)
    | some (.source k), none => .ok (s.direct n (if mode = .read then .source k else .nowhere))
    | some there, none => .ok (s.direct n there)
    | none, none => .error (openingError (mode ≠ .read) path .noSuchFile)
  | .write, none =>
    match s.protection? path with
    | some message => .error message
    | none => s.openFile n mode path
  | _, none => s.openFile n mode path

end SchemaModel.Shell.Session
