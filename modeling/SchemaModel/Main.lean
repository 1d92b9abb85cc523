import SchemaModel.CommandLine.Run

/-!
# The program

The files below the working directory are read into a tree, the command runs on the tree, and what
has changed is written back.
-/

namespace SchemaModel.CommandLine

/-- An entry of a directory with all that is below it. -/
partial def readEntry (e : IO.FS.DirEntry) : IO (String × Entry) := do
  match (← e.path.symlinkMetadata).type with
  | .dir =>
    let inner ← (← e.path.readDir).toList.mapM readEntry
    return (e.fileName, .directory (inner.mergeSort fun a b => decide (a.1 ≤ b.1)))
  | .file => return (e.fileName, .file (← IO.FS.readBinFile e.path))
  | _ => return (e.fileName, .file ByteArray.empty)

/-- The tree below the working directory. -/
def readTree : IO FileTree := do
  let entries ← (← (← IO.currentDir).readDir).toList.mapM readEntry
  return FileTree.ofEntries entries

/-- Writes what has changed below the working directory. -/
def writeChanges (before after : FileTree) : IO Unit := do
  for (path, content) in before.changes after do
    IO.FS.createDirAll (((PathName.upwards path).drop 1).headD ".")
    IO.FS.writeBinFile path content
  for (path, _) in before.files do
    unless (after.files.lookup path).isSome do
      IO.FS.removeFile path

/-- Runs the command that arguments name. -/
def runArguments (arguments : List String) : IO UInt32 := do
  match Command.ofArguments arguments with
  | .error usage =>
    if usage = .help then IO.print usage.message else IO.eprint usage.message
    return usage.status.toUInt32
  | .ok command =>
    let before ← if command.usesFiles then readTree else pure FileTree.empty
    let outcome := command.run FileTree.host before
    writeChanges before outcome.state
    (← IO.getStdout).write outcome.out
    (← IO.getStderr).write outcome.err
    return outcome.status.toUInt32

end SchemaModel.CommandLine

/-- The entry point. -/
def main (arguments : List String) : IO UInt32 :=
  SchemaModel.CommandLine.runArguments arguments
