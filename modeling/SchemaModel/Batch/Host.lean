import SchemaModel.Glob.Expand
import SchemaModel.Shell.Run

/-!
# What a run works on

A run reads and writes files, expands patterns and starts the formatter, all through a host with
a state of its own.  Nothing else is known of the host; a file tree is one.

* `Host` — the operations;
* `FileTree.host` — a file tree as a host.
-/

namespace SchemaModel

/-- The state after a formatter command, what it printed, and how it ended. -/
structure Formatted (σ : Type) where
  state : σ
  out : ByteArray
  err : ByteArray
  exit : Exit

/-- The operations of a host.  The search for what a pattern matches may come upon entries that
cannot be read.  A host that fails to make directories or to write may still have done a part of
the work. -/
structure Host (σ : Type) where
  hasEntry : σ → String → Bool
  readText : σ → String → Except OsError String
  expand : σ → String → Except Glob.SyntaxError (List (Except Glob.ReadError String))
  makeDirectories : σ → String → σ × Option OsError
  write : σ → String → String → σ × Option OsError
  format : σ → List String → Formatted σ

/-- A file tree as a host, which knows a shell and a few tools for formatters. -/
def FileTree.host : Host FileTree where
  hasEntry := FileTree.hasEntry
  readText := FileTree.readText
  expand t pattern := (Glob.expand t pattern).map (·.map .ok)
  makeDirectories := FileTree.makeDirectories
  write t path text :=
    match t.write path text with
    | .ok t => (t, none)
    | .error e => (t, some e)
  format t command :=
    let e := Shell.execute t (command.headD "") (command.drop 1)
    ⟨e.tree, e.out, e.err, e.exit⟩

end SchemaModel
