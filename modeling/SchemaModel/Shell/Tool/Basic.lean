import SchemaModel.FileTree.Basic
import SchemaModel.Shell.Options

/-!
# Tools at work

A tool is called with arguments and some input, works on a file tree, prints to two descriptors and
ends with a status.  What it prints as its output is held back until there is an error to be told
of, or until the end.

* `Tool.Call` — what a tool is given;
* `Tool.Work` — what a tool has done so far, with the steps that all tools share;
* `Tool.Outcome` — what a tool leaves behind.
-/

namespace SchemaModel.Shell.Tool

/-- What a tool is given: the name it is called by, its arguments, its input, the files that the
input comes from and the output goes to, if there are any, whether there is an input and an output,
and whether the output can be written. -/
structure Call where
  name : String
  arguments : List String
  input : Except OsError ByteArray := .ok ByteArray.empty
  source : Option (List String) := none
  sink : Option (List String) := none
  hasInput : Bool := true
  hasOutput : Bool := true
  isWritten : Bool := true

/-- What a tool has done so far: the files, what it has printed to which descriptor, the last one
first, what it holds back of its output, its status, whether it has read its input, and the lines
that are left as answers. -/
structure Work where
  tree : FileTree
  printed : List (Nat × ByteArray) := []
  held : ByteArray := ByteArray.empty
  status : Nat := 0
  readsInput : Bool := false
  answers : List String := []

/-- What a tool leaves behind: the files, what it printed to which descriptor, its status, and
whether it has read its input. -/
structure Outcome where
  tree : FileTree
  printed : List (Nat × ByteArray)
  status : Nat
  readsInput : Bool

/-- A line on the error channel. -/
def Call.line (c : Call) (what : String) : String := c.name ++ ": " ++ what ++ "\n"

/-- A call at its start.  The answers are the lines of the input. -/
def Call.start (c : Call) (t : FileTree) : Work :=
  let text := String.fromUTF8? (c.input.toOption.getD ByteArray.empty)
  { tree := t, answers := (text.getD "").splitOn "\n" }

namespace Work

/-- Prints bytes, which are held back. -/
def print (w : Work) (bytes : ByteArray) : Work := { w with held := w.held ++ bytes }

/-- Prints lines if they are asked for. -/
def report (w : Work) (verbose : Bool) (lines : List String) : Work :=
  if verbose then w.print (String.join (lines.map (· ++ "\n"))).toUTF8 else w

/-- Prints what has been held back. -/
def flush (w : Work) : Work :=
  if w.held.isEmpty then w
  else { w with printed := (1, w.held) :: w.printed, held := ByteArray.empty }

/-- Prints a text on the error channel at once. -/
def tell (w : Work) (text : String) : Work := { w with printed := (2, text.toUTF8) :: w.printed }

/-- Prints a message of the tool. -/
def warn (w : Work) (c : Call) (what : String) : Work := w.flush.tell (c.line what)

/-- A failure with a message of the tool. -/
def complain (w : Work) (c : Call) (what : String) : Work := { w.warn c what with status := 1 }

/-- A failure that points to the tool's help. -/
def misuse (w : Work) (c : Call) (what : String) : Work :=
  w.complain c (what ++ "\nTry '" ++ c.name ++ " --help' for more information.")

/-- Asks a question, which the next line of the input answers. -/
def ask (w : Work) (c : Call) (question : String) : Bool × Work :=
  let answer := (w.answers.headD "").toList.head?
  (answer == some 'y' || answer == some 'Y',
    { w.tell (c.name ++ ": " ++ question ++ "? ") with
      answers := w.answers.drop 1, readsInput := true })

/-- A step for every operand. -/
def forAll (w : Work) (operands : List String) (step : String → Work → Work) : Work :=
  operands.foldl (fun w operand => step operand w) w

/-- What is left behind at the end.  Output that cannot be printed is told of. -/
def finish (w : Work) (c : Call) : Outcome :=
  let isLost := !c.isWritten && (!w.held.isEmpty || w.printed.any (·.1 = 1))
  let w := w.flush
  let w := if isLost then w.complain c "write error: Bad file descriptor" else w
  { tree := w.tree, printed := w.printed.reverse, status := w.status, readsInput := w.readsInput }

end Work

/-- The names that lead to what is at a path, from the root. -/
def placeOf (t : FileTree) (path : String) : Except OsError (List String) :=
  t.walk (t.start path) (FileTree.steps path)

/-- Whether a path stands for the input. -/
def isInputPath (path : String) : Bool := ["/dev/stdin", "/dev/fd/0"].contains path

end SchemaModel.Shell.Tool
