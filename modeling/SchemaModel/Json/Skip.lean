import SchemaModel.Json.Reader

/-!
# Passing over a JSON value

A value that nobody wants is passed over by its brackets alone, however deep it nests.  Numbers
out of range and unpaired surrogates inside it go unnoticed, and a comma before a closing bracket
is the missing value after it.

* `Skip.step` — the machine, with the brackets that are still open;
* `skipValue` — the tokens after the first value.
-/

namespace SchemaModel.Json

namespace Skip

/-- The kind of an open bracket. -/
inductive Bracket where
  | list
  | object
deriving DecidableEq, Repr

/-- The error if the tokens end inside a bracket. -/
def Bracket.atEnd : Bracket → SyntaxError
  | .list => .endInList
  | .object => .endInObject

/-- The error for a token that is neither a comma nor the closing bracket. -/
def Bracket.expectedEnd : Bracket → SyntaxError
  | .list => .expectedListEnd
  | .object => .expectedObjectEnd

/-- What must come next, in the bracket at hand. -/
inductive Expecting where
  | value
  | first (b : Bracket)
  | more (b : Bracket)
  | key
  | colon
deriving DecidableEq, Repr

/-- The error if the tokens end here. -/
def Expecting.atEnd : Expecting → SyntaxError
  | .value => .endInValue
  | .first b | .more b => b.atEnd
  | .key | .colon => .endInObject

/-- The outcome of one token. -/
inductive Step where
  | more (expecting : Expecting) (stack : List Bracket)
  | done

/-- A value inside the open brackets is over. -/
def complete : List Bracket → Step
  | [] => .done
  | b :: stack => .more (.more b) (b :: stack)

/-- Passes over a token where a value is expected. -/
def valueStep (stack : List Bracket) : Token → Except SyntaxError Step
  | .openArray => .ok (.more (.first .list) (.list :: stack))
  | .openObject => .ok (.more (.first .object) (.object :: stack))
  | .null | .bool _ | .number _ | .string _ => .ok (complete stack)
  | .brokenString _ skipping | .broken _ skipping => .error skipping
  | .closeArray | .closeObject | .comma | .colon => .error .expectedValue

/-- Passes over a token where a key is expected. -/
def keyStep (stack : List Bracket) : Token → Except SyntaxError Step
  | .string _ => .ok (.more .colon stack)
  | .brokenString _ skipping => .error skipping
  | _ => .error .keyNotString

/-- Passes over one token. -/
def step (expecting : Expecting) (stack : List Bracket) (t : Token) : Except SyntaxError Step :=
  match expecting, t with
  | .value, t => valueStep stack t
  | .first .list, .closeArray | .more .list, .closeArray => .ok (complete stack.tail)
  | .first .object, .closeObject | .more .object, .closeObject => .ok (complete stack.tail)
  | .first .list, t => valueStep stack t
  | .first .object, t => keyStep stack t
  | .more .list, .comma => .ok (.more .value stack)
  | .more .object, .comma => .ok (.more .key stack)
  | .more b, _ => .error b.expectedEnd
  | .key, t => keyStep stack t
  | .colon, .colon => .ok (.more .value stack)
  | .colon, _ => .error .expectedColon

/-- Passes over tokens until the outermost value is over. -/
def run (expecting : Expecting) (stack : List Bracket) :
    List Token → Except SyntaxError (List Token)
  | [] => .error expecting.atEnd
  | t :: rest =>
    match step expecting stack t with
    | .error e => .error e
    | .ok .done => .ok rest
    | .ok (.more expecting stack) => run expecting stack rest

theorem length_lt_of_run {expecting : Expecting} {stack : List Bracket} {ts rest : List Token}
    (h : run expecting stack ts = .ok rest) : rest.length < ts.length := by
  induction ts generalizing expecting stack with
  | nil => simp [run] at h
  | cons t ts ih =>
    rw [run] at h
    split at h
    · cases h
    · cases h
      exact Nat.lt_succ_self _
    · exact Nat.lt_succ_of_lt (ih h)

end Skip

/-- The tokens after the first value. -/
def skipValue (ts : List Token) : Except SyntaxError (List Token) := Skip.run .value [] ts

end SchemaModel.Json
