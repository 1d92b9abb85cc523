import SchemaModel.Shell.Tool.Copy
import SchemaModel.Shell.Tool.Print
import SchemaModel.Shell.Tool.Remove

/-!
# Tools

These tools print their arguments, print files, copy files and remove them, or do nothing at all.

* `Tool` — the tools;
* `Tool.run` — runs a tool.
-/

namespace SchemaModel.Shell

/-- The tools. -/
inductive Tool where
  | succeed
  | fail
  | echo
  | cat
  | copy
  | remove
deriving DecidableEq, Repr

namespace Tool

/-- The tools by name. -/
def table : List (String × Tool) :=
  [("true", .succeed), ("false", .fail), ("echo", .echo), ("cat", .cat), ("cp", .copy),
    ("rm", .remove)]

/-- Runs a tool. -/
def run (tool : Tool) (t : FileTree) (c : Call) : Outcome :=
  let w := c.start t
  let done :=
    match tool with
    | .succeed => w
    | .fail => { w with status := 1 }
    | .echo => runEcho c w
    | .cat => runCat c w
    | .copy => runCopy c w
    | .remove => runRemove c w
  done.finish c

end Tool

end SchemaModel.Shell
