import SchemaModel.FileTree.Basic
import SchemaModel.Shell.Numeral
import SchemaModel.Shell.Program

/-!
# Tests

A test is a list of words: operands, operators before one or between two of them, and words that
join tests.  A word is an operator only where one can stand.  All parts of a test are looked at,
also those that do not decide it.

* `Test.kind` — what the first of some words is;
* `Test.holds` — whether a test holds.
-/

namespace SchemaModel.Shell.Test

/-- The operators before an operand. -/
def unaryOperators : List String :=
  ["-r", "-w", "-x", "-e", "-f", "-d", "-c", "-b", "-p", "-u", "-g", "-k", "-s", "-t", "-z", "-n",
    "-h", "-O", "-G", "-L", "-S"]

/-- The operators between two operands. -/
def binaryOperators : List String :=
  ["=", "!=", "<", ">", "-eq", "-ne", "-ge", "-gt", "-le", "-lt", "-nt", "-ot", "-ef"]

/-- What a word is where it stands. -/
inductive Kind where
  | missing
  | operand
  | unary
  | binary
  | opposite
  | both
  | either
  | opening
  | closing
deriving DecidableEq, Repr

/-- Whether the word after an operator makes it an operand. -/
def isOperand : List String → Bool
  | [] => true
  | [_] => false
  | next :: _ :: _ => binaryOperators.contains next

/-- What the first of some words is. -/
def kind : List String → Kind
  | [] => .missing
  | w :: rest =>
    if binaryOperators.contains w then .binary
    else if unaryOperators.contains w then if isOperand rest then .operand else .unary
    else
      match w with
      | "!" => .opposite
      | "-a" => .both
      | "-o" => .either
      | "(" => if rest.isEmpty then .operand else .opening
      | ")" => .closing
      | _ => .operand

/-! ### Operators -/

/-- A number among the operands. -/
def number (text : String) : Except String Int :=
  match Numeral.whole? false text with
  | some n => .ok n
  | none => .error (Numeral.fault text)

/-- Whether a path stands for one of the channels. -/
def isChannelPath (path : String) : Bool :=
  ["/dev/stdin", "/dev/stdout", "/dev/stderr"].contains path

/-- Whether an operator holds of an operand. -/
def unary (t : FileTree) (op x : String) : Except String Bool :=
  let isProgram := (Program.ofPath? x).isSome
  match op with
  | "-n" => .ok !x.isEmpty
  | "-z" => .ok x.isEmpty
  | "-e" | "-r" | "-w" | "-O" | "-G" => .ok (t.hasEntry x || isProgram || isChannelPath x)
  | "-x" => .ok (t.hasDirectory x || isProgram)
  | "-d" => .ok (t.hasDirectory x)
  | "-t" => (number x).map fun _ => false
  | _ =>
    .ok <|
      match op, t.entry x with
      | "-f", .ok (.file _) | "-s", .ok (.directory _) | "-c", .ok .device => true
      | "-s", .ok (.file content) => !content.isEmpty
      | "-f", _ | "-s", _ => isProgram
      | _, _ => false

/-- Whether two paths lead to the same entry. -/
def isSameEntry (t : FileTree) (x y : String) : Bool :=
  match t.walk (t.start x) (FileTree.steps x), t.walk (t.start y) (FileTree.steps y) with
  | .ok a, .ok b => a == b && t.hasEntry x
  | _, _ => false

/-- Whether an operator holds between two operands. -/
def binary (t : FileTree) (x op y : String) : Except String Bool :=
  let compare (holds : Int → Int → Bool) : Except String Bool := do
    return holds (← number x) (← number y)
  match op with
  | "=" => .ok (x == y)
  | "!=" => .ok (x != y)
  | "<" => .ok (x < y)
  | ">" => .ok (y < x)
  | "-eq" => compare fun a b => a == b
  | "-ne" => compare fun a b => a != b
  | "-lt" => compare fun a b => a < b
  | "-le" => compare fun a b => a ≤ b
  | "-gt" => compare fun a b => b < a
  | "-ge" => compare fun a b => b ≤ a
  | "-ef" => .ok (isSameEntry t x y)
  | _ => .ok false

/-! ### Tests -/

/-- Whether a test holds, with the words from the last one that belongs to it. -/
abbrev Answer := Except String (Bool × List String)

/-- What is wrong at a word, which is named unless it is empty. -/
def faultAt {α : Type} (word what : String) : Except String α :=
  .error (if word.isEmpty then what else word ++ ": " ++ what)

mutual

/-- Tests of which one has to hold. -/
def either (t : FileTree) : Nat → List String → Answer
  | fuel + 1, ws => do
    let (a, ws) ← both t fuel ws
    if kind (ws.drop 1) = .either then
      let (b, ws) ← either t fuel (ws.drop 2)
      return (a || b, ws)
    else return (a, ws)
  | 0, ws => .ok (false, ws)
termination_by structural fuel => fuel

/-- Tests all of which have to hold. -/
def both (t : FileTree) : Nat → List String → Answer
  | fuel + 1, ws => do
    let (a, ws) ← opposite t fuel ws
    if kind (ws.drop 1) = .both then
      let (b, ws) ← both t fuel (ws.drop 2)
      return (a && b, ws)
    else return (a, ws)
  | 0, ws => .ok (false, ws)
termination_by structural fuel => fuel

/-- A test that may be turned round. -/
def opposite (t : FileTree) : Nat → List String → Answer
  | fuel + 1, ws => do
    if kind ws = .opposite then
      if ws.length = 1 then return (true, ws)
      let (a, ws) ← opposite t fuel (ws.drop 1)
      return (!a, ws)
    else single t fuel ws
  | 0, ws => .ok (false, ws)
termination_by structural fuel => fuel

/-- A single test, or tests between parentheses. -/
def single (t : FileTree) : Nat → List String → Answer
  | fuel + 1, ws => do
    match kind ws, ws with
    | .opening, _ :: ws =>
      if kind ws = .closing then return (false, ws)
      let (a, ws) ← either t fuel ws
      if kind (ws.drop 1) = .closing then return (a, ws.drop 1)
      else .error "closing paren expected"
    | .unary, op :: x :: rest => return (← unary t op x, x :: rest)
    | .unary, [op] => faultAt op "argument expected"
    | _, x :: rest =>
      if kind rest = .binary then
        match rest with
        | op :: y :: rest => return (← binary t x op y, y :: rest)
        | _ => faultAt (rest.headD "") "argument expected"
      else return (!x.isEmpty, x :: rest)
    | _, [] => return (false, [])
  | 0, ws => .ok (false, ws)
termination_by structural fuel => fuel

end

/-- Whether a test of all the words holds. -/
def all (t : FileTree) (ws : List String) : Except String Bool := do
  match ← either t (4 * (ws.length + 1)) ws with
  | (_, last :: _ :: _) => faultAt last "unexpected operator"
  | (a, _) => return a

/-- Whether a test holds.  Three or four words are looked at as a whole first, where two exclamation
marks count once. -/
def holds (t : FileTree) : List String → Except String Bool
  | [] => .ok false
  | [x, op, y] =>
    if binaryOperators.contains op then binary t x op y
    else if x = "(" ∧ y = ")" then all t [op]
    else if x = "!" then (all t [op, y]).map not
    else all t [x, op, y]
  | [x, y, z, w] =>
    if x = "(" ∧ w = ")" then all t [y, z]
    else if x = "!" ∧ y = "!" ∧ !binaryOperators.contains z then holds t [y, z, w]
    else if x = "!" then (holds t [y, z, w]).map not
    else all t [x, y, z, w]
  | ws => all t ws

end SchemaModel.Shell.Test
