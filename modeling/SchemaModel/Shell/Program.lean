import SchemaModel.Shell.Tool
import SchemaModel.Shell.Variables

/-!
# Programs by name

A program is a tool or a shell.  One whose name has a slash is a path; others are looked for in some
directories, one after another.  No file of the tree can be started.

* `Program.find` — the program of a name;
* `Program.startable` — the program of a name, if it can be started with arguments.
-/

namespace SchemaModel.Shell

/-- A program that can be started. -/
inductive Program where
  | tool (t : Tool)
  | shell
deriving DecidableEq, Repr

namespace Program

/-- The program of a plain name. -/
def ofName? (name : String) : Option Program :=
  if name = "sh" then some .shell else (Tool.table.lookup name).map .tool

/-- The program that a path leads to. -/
def ofPath? (path : String) : Option Program :=
  if !PathName.isAbsolute path then none
  else
    match FileTree.steps path with
    | ["bin", name] | ["usr", "bin", name] => ofName? name
    | _ => none

/-- A path that a name may stand for in a directory. -/
def candidate (directory name : String) : String :=
  if directory.isEmpty then name else directory ++ "/" ++ name

/-- The paths that a name may stand for in a list of directories. -/
def candidates (path name : String) : List String :=
  (path.splitOn ":").map (candidate · name)

/-- The error of a path where no program is. -/
def pathError (t : FileTree) (path : String) : OsError :=
  match t.entry path with
  | .ok _ => .permissionDenied
  | .error .notADirectory => .noSuchFile
  | .error e => e

/-- The program that one of some paths leads to, or the error of the last path where there is
something else. -/
def search (t : FileTree) : OsError → List String → Except OsError (Program × String)
  | e, [] => .error e
  | e, path :: rest =>
    match ofPath? path with
    | some program => .ok (program, path)
    | none =>
      let here := pathError t path
      search t (if here = .noSuchFile then e else here) rest

/-- The program of a name, with its path. -/
def find (t : FileTree) (path name : String) : Except OsError (Program × String) :=
  if name.toList.contains '/' then
    match ofPath? name with
    | some program => .ok (program, name)
    | none => do
      let _ ← t.entry name
      .error .permissionDenied
  else if name = "." ∨ name = ".." then .error .permissionDenied
  else if name.isEmpty then .error .noSuchFile
  else if FileTree.nameLimit < name.utf8ByteSize then .error .nameTooLong
  else search t .noSuchFile (candidates path name)

/-- The most bytes that one argument can have. -/
def argumentLimit : Nat := 131071

/-- The program of a name, with its path, if each of its arguments is short enough. -/
def startable (t : FileTree) (path name : String) (arguments : List String) :
    Except OsError (Program × String) := do
  let found ← find t path name
  if arguments.any (argumentLimit < ·.utf8ByteSize) then .error .argumentTooLong
  return found

end Program

/-- The directories that programs are looked for in. -/
def Session.path (s : Session) : String := (s.bindings.lookup "PATH").getD ""

end SchemaModel.Shell
