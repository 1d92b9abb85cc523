import SchemaModel.Shell.Variables

/-!
# Arithmetic

An expression is made of numbers of 64 bits, names of variables and operators.  A text that is none
is read up to its fault, so that what comes before the fault is still worked out first.  A part that
does not count is read as well, but neither looks at variables nor sets them.

* `Arithmetic` — the expressions;
* `Arithmetic.ofText` — a text read as an expression;
* `Arithmetic.value` — the value of an expression in a shell.
-/

namespace SchemaModel.Shell

namespace Arithmetic

/-- Why an expression has no value. -/
inductive Fault where
  | noOperand
  | noClosing
  | noColon
  | trailing
  | divisionByZero
  | overflow
  | illegalNumber (text : String)
  | notAssigned (reason : String)
deriving DecidableEq, Repr

/-- The wording of a fault of a text. -/
def Fault.message (text : String) : Fault → String
  | .illegalNumber number => Numeral.fault number
  | .notAssigned reason => reason
  | .noOperand => about "expecting primary"
  | .noClosing => about "expecting ')'"
  | .noColon => about "expecting ':'"
  | .trailing => about "expecting EOF"
  | .divisionByZero => about "division by zero"
  | .overflow => about "division overflows"
where
  /-- A fault that is shown with the text. -/
  about (what : String) : String := "arithmetic expression: " ++ what ++ ": " ++ marked text

/-- An operator before an operand. -/
inductive Sign where
  | negative
  | complement
  | opposite
deriving DecidableEq, Repr

/-- The number with a sign. -/
def Sign.apply (sign : Sign) (n : Int64) : Int64 :=
  match sign with
  | .negative => Int64.neg n
  | .complement => Int64.complement n
  | .opposite => if n = 0 then 1 else 0

/-- An operator between two operands. -/
inductive Joint where
  | multiply
  | divide
  | remainder
  | add
  | subtract
  | shiftLeft
  | shiftRight
  | less
  | lessOrEqual
  | greater
  | greaterOrEqual
  | equal
  | unequal
  | commonBits
  | differingBits
  | allBits
deriving DecidableEq, Repr

namespace Joint

/-- The operators by their marks. -/
def table : List (String × Joint) :=
  [("*", multiply), ("/", divide), ("%", remainder), ("+", add), ("-", subtract),
    ("<<", shiftLeft), (">>", shiftRight), ("<", less), ("<=", lessOrEqual), (">", greater),
    (">=", greaterOrEqual), ("==", equal), ("!=", unequal), ("&", commonBits),
    ("^", differingBits), ("|", allBits)]

/-- How loosely an operator binds. -/
def rank : Joint → Nat
  | multiply | divide | remainder => 0
  | add | subtract => 1
  | shiftLeft | shiftRight => 2
  | less | lessOrEqual | greater | greaterOrEqual => 3
  | equal | unequal => 4
  | commonBits => 5
  | differingBits => 6
  | allBits => 7

/-- A rank above that of all operators. -/
def ranks : Nat := 8

/-- The operator that a mark of assignment applies to the old value; `=` itself applies none. -/
def ofAssignment? (mark : String) : Option (Option Joint) :=
  if mark = "=" then some none
  else
    let assigning := [multiply, divide, remainder, add, subtract, shiftLeft, shiftRight,
      commonBits, differingBits, allBits]
    (table.find? fun e => e.1 ++ "=" = mark ∧ assigning.contains e.2).map fun e => some e.2

/-- A quotient or a remainder.  The least number has no opposite. -/
def divided (divide : Int64 → Int64 → Int64) (a b : Int64) : Except Fault Int64 :=
  if b = 0 then .error .divisionByZero
  else if a = Int64.minValue ∧ b = -1 then .error .overflow
  else .ok (divide a b)

/-- The value of an operator between two numbers. -/
def apply (op : Joint) (a b : Int64) : Except Fault Int64 :=
  let truth (holds : Bool) : Except Fault Int64 := .ok (if holds then 1 else 0)
  match op with
  | multiply => .ok (Int64.mul a b)
  | divide => divided Int64.div a b
  | remainder => divided Int64.mod a b
  | add => .ok (Int64.add a b)
  | subtract => .ok (Int64.sub a b)
  | shiftLeft => .ok (Int64.shiftLeft a b)
  | shiftRight => .ok (Int64.shiftRight a b)
  | less => truth (a < b)
  | lessOrEqual => truth (a ≤ b)
  | greater => truth (b < a)
  | greaterOrEqual => truth (b ≤ a)
  | equal => truth (a == b)
  | unequal => truth (a != b)
  | commonBits => .ok (Int64.land a b)
  | differingBits => .ok (Int64.xor a b)
  | allBits => .ok (Int64.lor a b)

end Joint

/-! ### Tokens -/

/-- A token of an expression. -/
inductive Token where
  | number (n : Int64)
  | name (s : String)
  | mark (s : String)
deriving DecidableEq, Repr

/-- The marks of more than one character. -/
def longMarks : List String :=
  ["<<=", ">>=", "*=", "/=", "%=", "+=", "-=", "&=", "^=", "|=", "<<", ">>", "<=", ">=", "==",
    "!=", "&&", "||"]

/-- The number of characters of the mark at the start of a text. -/
def markLength (text : List Char) : Nat :=
  match [3, 2].find? fun n => longMarks.contains (String.ofList (text.take n)) with
  | some n => n
  | none => 1

/-- The tokens of a text.  The number bounds their count. -/
def tokens : Nat → List Char → List Token
  | 0, _ => []
  | fuel + 1, text =>
    match text with
    | [] => []
    | c :: rest =>
      if c = ' ' ∨ c = '\t' ∨ c = '\n' then tokens fuel rest
      else if c.isDigit then
        let (n, rest) := Numeral.unsigned true text
        .number (Int64.ofInt (min n Int64.maxValue.toInt)) :: tokens fuel rest
      else if c.isAlpha ∨ c = '_' then
        let isInName (c : Char) : Bool := c.isAlphanum || c = '_'
        .name (String.ofList (text.takeWhile isInName)) :: tokens fuel (text.dropWhile isInName)
      else
        let n := markLength text
        .mark (String.ofList (text.take n)) :: tokens fuel (text.drop n)

end Arithmetic

/-- An expression.  One that goes on in a wrong way is worked out up to its fault. -/
inductive Arithmetic where
  | number (n : Int64)
  | named (name : String)
  | signed (sign : Arithmetic.Sign) (e : Arithmetic)
  | joined (op : Arithmetic.Joint) (a b : Arithmetic)
  | both (a b : Arithmetic)
  | either (a b : Arithmetic)
  | choice (test yes no : Arithmetic)
  | assigned (name : String) (op : Option Arithmetic.Joint) (e : Arithmetic)
  | upTo (e : Arithmetic) (f : Arithmetic.Fault)
  | fault (f : Arithmetic.Fault)
deriving DecidableEq, Repr

namespace Arithmetic

/-! ### Reading -/

/-- What a reading yields: an expression and the tokens after it. -/
abbrev Reading : Type := Arithmetic × List Token

mutual

/-- An expression that may set a variable. -/
def readAssignment : Nat → List Token → Reading
  | fuel + 1, ts =>
    match ts with
    | .name x :: .mark m :: rest =>
      match Joint.ofAssignment? m with
      | some op =>
        let (e, rest) := readAssignment fuel rest
        (.assigned x op e, rest)
      | none => readChoice fuel ts
    | ts => readChoice fuel ts
  | 0, ts => (.fault .noOperand, ts)
termination_by structural fuel => fuel

/-- An expression that may choose between two others. -/
def readChoice : Nat → List Token → Reading
  | fuel + 1, ts =>
    let (test, rest) := readEither fuel ts
    match rest with
    | .mark "?" :: rest =>
      let (yes, rest) := readAssignment fuel rest
      match rest with
      | .mark ":" :: rest =>
        let (no, rest) := readChoice fuel rest
        (.choice test yes no, rest)
      | rest => (.choice test (.upTo yes .noColon) (.fault .noColon), rest)
    | rest => (test, rest)
  | 0, ts => (.fault .noOperand, ts)
termination_by structural fuel => fuel

/-- Expressions of which one has to be true. -/
def readEither : Nat → List Token → Reading
  | fuel + 1, ts =>
    let (a, rest) := readBoth fuel ts
    match rest with
    | .mark "||" :: rest =>
      let (b, rest) := readEither fuel rest
      (.either a b, rest)
    | rest => (a, rest)
  | 0, ts => (.fault .noOperand, ts)
termination_by structural fuel => fuel

/-- Expressions all of which have to be true. -/
def readBoth : Nat → List Token → Reading
  | fuel + 1, ts =>
    let (a, rest) := readJoined fuel Joint.ranks ts
    match rest with
    | .mark "&&" :: rest =>
      let (b, rest) := readBoth fuel rest
      (.both a b, rest)
    | rest => (a, rest)
  | 0, ts => (.fault .noOperand, ts)
termination_by structural fuel => fuel

/-- Operands joined by operators of less than a rank. -/
def readJoined : Nat → Nat → List Token → Reading
  | fuel + 1, limit, ts =>
    let (a, rest) := readOperand fuel ts
    readJoinedRest fuel limit a rest
  | 0, _, ts => (.fault .noOperand, ts)
termination_by structural fuel => fuel

/-- The operators of less than a rank after an operand, with their operands. -/
def readJoinedRest : Nat → Nat → Arithmetic → List Token → Reading
  | fuel + 1, limit, a, ts =>
    match ts with
    | .mark m :: rest =>
      match Joint.table.lookup m with
      | some op =>
        if op.rank < limit then
          let (b, rest) := readJoined fuel op.rank rest
          readJoinedRest fuel limit (.joined op a b) rest
        else (a, ts)
      | none => (a, ts)
    | ts => (a, ts)
  | 0, _, _, ts => (.fault .noOperand, ts)
termination_by structural fuel => fuel

/-- An operand with the signs before it. -/
def readOperand : Nat → List Token → Reading
  | fuel + 1, ts =>
    let signed (sign : Sign) (r : Reading) : Reading := (.signed sign r.1, r.2)
    match ts with
    | .number n :: rest => (.number n, rest)
    | .name x :: rest => (.named x, rest)
    | .mark "+" :: rest => readOperand fuel rest
    | .mark "-" :: rest => signed .negative (readOperand fuel rest)
    | .mark "~" :: rest => signed .complement (readOperand fuel rest)
    | .mark "!" :: rest => signed .opposite (readOperand fuel rest)
    | .mark "(" :: rest =>
      let (e, rest) := readAssignment fuel rest
      match rest with
      | .mark ")" :: rest => (e, rest)
      | rest => (.upTo e .noClosing, rest)
    | ts => (.fault .noOperand, ts)
  | 0, ts => (.fault .noOperand, ts)
termination_by structural fuel => fuel

end

/-- A text read as an expression. -/
def ofText (text : String) : Arithmetic :=
  let ts := tokens (text.length + 1) text.toList
  let (e, rest) := readAssignment (8 * (ts.length + 2)) ts
  if rest.isEmpty then e else .upTo e .trailing

/-! ### Values -/

/-- Works something out in a shell, unless there is a fault. -/
abbrev Valuing := ExceptT Fault (StateM Session)

/-- The value of a variable; one that is not set, or blank, is zero. -/
def valueOf (name : String) : Valuing Int64 := do
  let text := ((← get).value? name).getD ""
  if text.toList.all Numeral.isBlank then return 0
  else
    match Numeral.whole? true text with
    | some n => return Int64.ofInt n
    | none => throw (.illegalNumber text)

/-- The value of an expression; the flag says that it does not count. -/
def valueFrom (skipped : Bool) : Arithmetic → Valuing Int64
  | .number n => return n
  | .named x => if skipped then return 0 else valueOf x
  | .signed sign e => return sign.apply (← valueFrom skipped e)
  | .joined op a b => do
    let a ← valueFrom skipped a
    let b ← valueFrom skipped b
    if skipped then return b else ExceptT.mk (pure (op.apply a b))
  | .both a b => do
    let a ← valueFrom skipped a
    let b ← valueFrom (skipped || a == 0) b
    return if a ≠ 0 ∧ b ≠ 0 then 1 else 0
  | .either a b => do
    let a ← valueFrom skipped a
    let b ← valueFrom (skipped || a != 0) b
    return if a ≠ 0 ∨ b ≠ 0 then 1 else 0
  | .choice test yes no => do
    let test ← valueFrom skipped test
    let yes ← valueFrom (skipped || test == 0) yes
    let no ← valueFrom (skipped || test != 0) no
    return if test ≠ 0 then yes else no
  | .assigned x op e => do
    let n ← valueFrom skipped e
    if skipped then return n
    else
      let n ←
        match op with
        | none => pure n
        | some op => do
          let old ← valueOf x
          ExceptT.mk (pure (op.apply old n))
      match (← get).assign x (toString n.toInt) with
      | .ok s => set s
      | .error reason => throw (.notAssigned reason)
      return n
  | .upTo e f => do
    let _ ← valueFrom skipped e
    throw f
  | .fault f => throw f

/-- The value of a text as an expression in a shell. -/
def value (text : String) : Valuing Int64 := valueFrom false (ofText text)

end Arithmetic

end SchemaModel.Shell
