import SchemaModel.FileTree.Basic
import SchemaModel.Signal

/-!
# How a program ends

A program that cannot be started ends with an error of the system; one that has run ends with a
status or by a signal.

* `Exit` — the ways to end;
* `Exit.message` — the wording of an end that is no success.
-/

namespace SchemaModel

/-- How a program ends. -/
inductive Exit where
  | notStarted (e : OsError)
  | exited (status : Nat)
  | killed (signal : Nat)
deriving DecidableEq, Repr

/-- The wording of an end. -/
def Exit.message : Exit → String
  | .notStarted e => e.message
  | .exited status => "exit status: " ++ toString status
  | .killed signal => "signal: " ++ Signal.shown signal

end SchemaModel
