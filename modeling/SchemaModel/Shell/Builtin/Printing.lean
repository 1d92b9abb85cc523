import SchemaModel.FileTree.Basic
import SchemaModel.Shell.Builtin.Basic
import SchemaModel.Shell.Format
import SchemaModel.Shell.Test

/-!
# Printing and testing

* `Builtin.echo`, `Builtin.printf` — print their arguments;
* `Builtin.test`, `Builtin.bracketTest` — test their arguments.
-/

namespace SchemaModel.Shell.Builtin

/-- Prints its arguments. -/
def echo : Builtin := fun arguments s =>
  let (arguments, tail) : List String × List UInt8 :=
    match arguments with
    | "-n" :: rest => (rest, [])
    | rest => (rest, [0x0A])
  printed ⟨(Escape.bytes false (" ".intercalate arguments) tail).toArray⟩ s

/-- Prints its arguments by a format. -/
def printf : Builtin := lettered "" "" fun l s =>
  match l.operands with
  | [] => s.fail "usage: printf format [arg ...]"
  | format :: arguments =>
    let p := Format.print format arguments
    let s := p.complaints.foldl (·.complain ·) (printed ⟨p.bytes.toArray⟩ s)
    match p.fault with
    | some message => s.fail message
    | none => if p.complaints.isEmpty then s else done s 1

/-- Tests its arguments. -/
def test : Builtin := fun arguments s =>
  match Test.holds s.tree arguments with
  | .ok true => done s 0
  | .ok false => done s 1
  | .error e => s.fail e

/-- Tests its arguments, the last of which is a bracket. -/
def bracketTest : Builtin := fun arguments s =>
  if arguments.getLast? = some "]" then test arguments.dropLast s else s.fail "missing ]"

end SchemaModel.Shell.Builtin
