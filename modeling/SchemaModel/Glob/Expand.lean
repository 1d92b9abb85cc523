import SchemaModel.FileTree.Basic
import SchemaModel.Glob.Pattern

/-!
# The paths that a pattern matches

A pattern is followed through a file tree component by component.  A plain name leads on without a
look at the directory; other components try the entries of the directory in ascending order.
Directories of any depth are tried before what is below them.

* `Glob.expandIn` — the matches below a path;
* `Glob.expand` — the paths that a pattern matches;
* `Glob.ReadError` — why a search breaks off, and `Glob.found` — the paths of one that does not.
-/

namespace SchemaModel.Glob

/-- The path of an entry of a directory; entries of the working directory go by their names. -/
def entryPath (base name : String) : String :=
  if PathName.components base = ["."] then name else PathName.join base name

/-- Whether tokens match a name. -/
def Component.matchesName : Component → String → Bool
  | .directories, _ => true
  | .plain n, name => n == name
  | .tokens ts, name => matchTokens ts name.toList

/-- Whether a component may match the entries that stand for the directory itself and the one
above it. -/
def Component.startsWithDot : Component → Bool
  | .tokens (.char '.' :: _) => true
  | _ => false

mutual

/-- Collects from an entry and, below a directory, from everything in it. -/
def collectBelow (collect : String → String → Entry → List String) (path name : String) :
    Entry → List String
  | .file content => collect path name (.file content)
  | .device => collect path name .device
  | .directory entries =>
    collect path name (.directory entries) ++ collectIn collect path entries
termination_by structural e => e

/-- Collects from the entries of a directory in order. -/
def collectIn (collect : String → String → Entry → List String) (base : String) :
    List (String × Entry) → List String
  | [] => []
  | (name, e) :: rest =>
    collectBelow collect (entryPath base name) name e ++ collectIn collect base rest
termination_by structural es => es

end

/-- The matches of components below a path. -/
def expandIn (t : FileTree) (mustBeDirectory : Bool) : List Component → String → List String
  | [], path => if !mustBeDirectory || t.hasDirectory path then [path] else []
  | .plain name :: rest, base =>
    let path := entryPath base name
    let there :=
      if name = "." ∨ name = ".." then t.hasDirectory base else t.hasEntry path
    if there then expandIn t mustBeDirectory rest path else []
  | .tokens ts :: rest, base =>
    let component := Component.tokens ts
    let special :=
      if component.startsWithDot ∧ t.hasDirectory base then
        ["..", "."].filter component.matchesName
      else []
    let named := ((t.entriesAt base).map (·.1)).filter component.matchesName
    special.flatMap (fun name => expandIn t mustBeDirectory rest (PathName.join base name)) ++
      named.flatMap fun name => expandIn t mustBeDirectory rest (entryPath base name)
  | [.directories], base =>
    collectIn (fun path _ e => if e.isDirectory then [path] else []) base (t.entriesAt base)
  | .directories :: .directories :: rest, base =>
    expandIn t mustBeDirectory (.directories :: rest) base
  | .directories :: next :: rest, base =>
    collectIn (fun path name _ =>
      if next.matchesName name then expandIn t mustBeDirectory rest path else [])
      base (t.entriesAt base)

/-- The components of a pattern; a slash at the end adds none. -/
def components (pattern : List Char) : Except SyntaxError (List Component) :=
  let parts := PathName.splitSlashes pattern
  let parts := if parts.getLast? = some [] then parts.dropLast else parts
  parts.mapM fun part => (compile part).map Component.ofTokens

/-- The paths that a pattern matches.  The pattern is read as a whole before its components. -/
def expand (t : FileTree) (pattern : String) : Except SyntaxError (List String) := do
  let text := pattern.toList
  let _ ← compile text
  let absolute := PathName.isAbsolute pattern
  let components ← components (if absolute then text.dropWhile (· = '/') else text)
  return expandIn t (PathName.endsInSlash pattern) components (if absolute then "/" else ".")

/-- An entry cannot be read while a pattern is followed.  It does not happen in a file tree. -/
structure ReadError where
  path : String
  error : OsError
deriving DecidableEq, Repr

/-- The wording of a read error. -/
def ReadError.message (e : ReadError) : String :=
  "attempting to read `" ++ e.path ++ "` resulted in an error: " ++ e.error.message

/-- The paths that a search comes upon, up to the first entry that cannot be read. -/
def found : List (Except ReadError String) → Except ReadError (List String)
  | [] => .ok []
  | .error e :: _ => .error e
  | .ok path :: rest => (found rest).map (path :: ·)

/-- Whether a text holds a character that makes it a pattern. -/
def isPattern (text : String) : Bool :=
  text.toList.any fun c => c = '*' || c = '?' || c = '[' || c = '\x7b'

end SchemaModel.Glob
