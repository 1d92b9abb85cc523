import SchemaModel.Json.Token

/-!
# Reading a JSON value

A value is read from its tokens by a machine with a stack of the arrays and objects that are still
open, so that reading takes one pass over the tokens and no recursion into the value.  What a
token means, and which error it is, follows from what the machine expects.

* `Reader.run` — the machine;
* `readValue` — the first value of a token list, with the tokens after it;
* `parse` — a text that is one value.
-/

namespace SchemaModel.Json

/-- An array or object that is still open, its contents so far in reverse. -/
inductive Frame where
  | list (done : List Json)
  | object (done : List (String × Json)) (key : String)

namespace Reader

/-- What must come next. -/
inductive Expecting where
  | value
  | firstElement
  | nextElement
  | elementEnd
  | firstKey
  | nextKey
  | colon
  | memberEnd
deriving DecidableEq, Repr

/-- The error if the tokens end here. -/
def Expecting.atEnd : Expecting → SyntaxError
  | .value | .nextElement | .nextKey => .endInValue
  | .firstElement | .elementEnd => .endInList
  | .firstKey | .colon | .memberEnd => .endInObject

/-- What follows a value inside an open array or object. -/
def Frame.push (v : Json) : Frame → Frame × Expecting
  | .list done => (.list (v :: done), .elementEnd)
  | .object done key => (.object ((key, v) :: done) key, .memberEnd)

/-- The outcome of one token: more tokens are needed, or the outermost value is complete. -/
inductive Step where
  | more (expecting : Expecting) (stack : List Frame)
  | done (v : Json)

/-- A complete value goes into the innermost open array or object. -/
def complete (v : Json) : List Frame → Step
  | [] => .done v
  | frame :: stack =>
    let (frame, expecting) := Frame.push v frame
    .more expecting (frame :: stack)

/-- Opens an array or object; `limit` is the first depth of nesting that is refused. -/
def open_ (limit : Option Nat) (frame : Frame) (expecting : Expecting) (stack : List Frame) :
    Except SyntaxError Step :=
  if limit.any (· ≤ stack.length + 1) then .error .tooDeep
  else .ok (.more expecting (frame :: stack))

/-- Reads a token where a value is expected. -/
def valueStep (limit : Option Nat) (stack : List Frame) : Token → Except SyntaxError Step
  | .openArray => open_ limit (.list []) .firstElement stack
  | .openObject => open_ limit (.object [] "") .firstKey stack
  | .null => .ok (complete .null stack)
  | .bool b => .ok (complete (.bool b) stack)
  | .number (some n) => .ok (complete (.number n) stack)
  | .number none => .error .numberOutOfRange
  | .string (.ok s) => .ok (complete (.string s) stack)
  | .string (.error e) => .error e
  | .brokenString reading _ => .error reading
  | .broken reading _ => .error reading
  | .closeArray | .closeObject | .comma | .colon => .error .expectedValue

/-- Reads a token where a key is expected.  The stack is never empty there. -/
def keyStep (stack : List Frame) : Token → Except SyntaxError Step
  | .string (.ok key) =>
    match stack with
    | .object done _ :: rest => .ok (.more .colon (.object done key :: rest))
    | _ => .error .keyNotString
  | .string (.error e) => .error e
  | .brokenString reading _ => .error reading
  | _ => .error .keyNotString

/-- The value of a closed array or object goes into the one around it.  A repeated key keeps its
first place and takes its last value. -/
def close : List Frame → Step
  | .list done :: stack => complete (.array done.reverse) stack
  | .object done _ :: stack => complete (.object (Table.ofEntries done.reverse)) stack
  | [] => .done .null

/-- Reads one token. -/
def step (limit : Option Nat) (expecting : Expecting) (stack : List Frame) (t : Token) :
    Except SyntaxError Step :=
  match expecting, t with
  | .value, t => valueStep limit stack t
  | .firstElement, .closeArray => .ok (close stack)
  | .firstElement, t => valueStep limit stack t
  | .nextElement, .closeArray => .error .trailingComma
  | .nextElement, t => valueStep limit stack t
  | .elementEnd, .comma => .ok (.more .nextElement stack)
  | .elementEnd, .closeArray => .ok (close stack)
  | .elementEnd, _ => .error .expectedListEnd
  | .firstKey, .closeObject => .ok (close stack)
  | .firstKey, t => keyStep stack t
  | .nextKey, .closeObject => .error .trailingComma
  | .nextKey, t => keyStep stack t
  | .colon, .colon => .ok (.more .value stack)
  | .colon, _ => .error .expectedColon
  | .memberEnd, .comma => .ok (.more .nextKey stack)
  | .memberEnd, .closeObject => .ok (close stack)
  | .memberEnd, _ => .error .expectedObjectEnd

/-- Reads tokens until the outermost value is complete. -/
def run (limit : Option Nat) (expecting : Expecting) (stack : List Frame) :
    List Token → Except SyntaxError (Json × List Token)
  | [] => .error expecting.atEnd
  | t :: rest =>
    match step limit expecting stack t with
    | .error e => .error e
    | .ok (.done v) => .ok (v, rest)
    | .ok (.more expecting stack) => run limit expecting stack rest

end Reader

/-- The first value of a token list, and the tokens after it. -/
def readValue (limit : Option Nat) (ts : List Token) : Except SyntaxError (Json × List Token) :=
  Reader.run limit .value [] ts

/-- The first depth of nesting that is refused in the text of a file. -/
def fileDepthLimit : Nat := 128

/-- The value of a text that is one JSON value. -/
def parse (limit : Option Nat) (text : String) : Except SyntaxError Json :=
  match readValue limit (tokens text.toList) with
  | .error e => .error e
  | .ok (v, []) => .ok v
  | .ok (_, _ :: _) => .error .trailingCharacters

end SchemaModel.Json
