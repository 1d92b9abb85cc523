/-!
# Wildcard patterns

A pattern is matched component by component.  In a component a star stands for any characters, a
question mark for one, and a bracket for one character in or not in a set; two stars are a whole
component and stand for any directories.

* `Glob.Token`, `Glob.Component` — the parts of a pattern;
* `Glob.compile` — the tokens of a pattern, or where and why it is no pattern;
* `Glob.matchTokens` — whether a component matches a name.
-/

namespace SchemaModel.Glob

/-- One character or an inclusive range of them. -/
inductive CharClass where
  | single (c : Char)
  | range (first last : Char)
deriving DecidableEq, Repr

/-- A part of a component. -/
inductive Token where
  | char (c : Char)
  | anyChar
  | anySequence
  | anyDirectories
  | within (classes : List CharClass)
  | except (classes : List CharClass)
deriving DecidableEq, Repr

/-- What is wrong with a pattern. -/
inductive Fault where
  | wildcards
  | recursiveWildcards
  | invalidRange
deriving DecidableEq, Repr

/-- A fault and the number of characters before it. -/
structure SyntaxError where
  position : Nat
  fault : Fault
deriving DecidableEq, Repr

/-- The wording of a fault. -/
def Fault.message : Fault → String
  | .wildcards => "wildcards are either regular `*` or recursive `**`"
  | .recursiveWildcards => "recursive wildcards must form a single path component"
  | .invalidRange => "invalid range pattern"

/-- The wording of a syntax error. -/
def SyntaxError.message (e : SyntaxError) : String :=
  "Pattern syntax error near position " ++ toString e.position ++ ": " ++ e.fault.message

/-- The classes between brackets; a dash between two characters makes a range. -/
def charClasses : List Char → List CharClass
  | a :: '-' :: b :: rest => .range a b :: charClasses rest
  | c :: rest => .single c :: charClasses rest
  | [] => []

/-- The text after an opening bracket, split at its closing one, which is not the first character
of the set. -/
def bracket? (text : List Char) : Option (Token × Nat) :=
  let (negated, body) : Bool × List Char :=
    match text with
    | '!' :: rest => (true, rest)
    | rest => (false, rest)
  match body with
  | [] => none
  | first :: rest =>
    match rest.findIdx? (· = ']') with
    | none => none
    | some j =>
      let classes := charClasses (first :: rest.take j)
      some (if negated then (.except classes, j + 3) else (.within classes, j + 2))

/-- The token of a run of stars that starts at a position, with the number of characters after the
first star that it takes. -/
def stars (position : Nat) (before : Option Char) (text : List Char) :
    Except SyntaxError (Token × Nat) :=
  let extra := (text.takeWhile (· = '*')).length
  if extra = 0 then .ok (.anySequence, 0)
  else if 1 < extra then .error ⟨position + 2, .wildcards⟩
  else if before.any (· ≠ '/') then .error ⟨position - 1, .recursiveWildcards⟩
  else
    match text.drop 1 with
    | [] => .ok (.anyDirectories, 1)
    | '/' :: _ => .ok (.anyDirectories, 2)
    | _ => .error ⟨position + 2, .recursiveWildcards⟩

/-- The token at the start of a text, with the number of characters after the first that it
takes. -/
def token (position : Nat) (before : Option Char) (c : Char) (rest : List Char) :
    Except SyntaxError (Token × Nat) :=
  match c with
  | '?' => .ok (.anyChar, 0)
  | '*' => stars position before rest
  | '[' =>
    match bracket? rest with
    | some found => .ok found
    | none => .error ⟨position, .invalidRange⟩
  | c => .ok (.char c, 0)

/-- The tokens of a text that starts at a position after a character. -/
def compileFrom (position : Nat) (before : Option Char) : List Char →
    Except SyntaxError (List Token)
  | [] => .ok []
  | c :: rest =>
    match token position before c rest with
    | .error e => .error e
    | .ok (t, extra) =>
      (compileFrom (position + extra + 1) ((c :: rest)[extra]?) (rest.drop extra)).map (t :: ·)
termination_by text => text.length
decreasing_by simp only [List.length_drop, List.length_cons]; omega

/-- The tokens of a text. -/
def compile (text : List Char) : Except SyntaxError (List Token) := compileFrom 0 none text

/-- Whether a class holds a character. -/
def CharClass.holds : CharClass → Char → Bool
  | .single a, c => a == c
  | .range a b, c => a ≤ c && c ≤ b

/-- Whether a token stands for a character. -/
def Token.holds : Token → Char → Bool
  | .char a, c => a == c
  | .anyChar, _ | .anySequence, _ | .anyDirectories, _ => true
  | .within classes, c => classes.any (·.holds c)
  | .except classes, c => !classes.any (·.holds c)

/-- Every place from the first one marked on. -/
def spread (seen : Bool) : List Bool → List Bool
  | [] => []
  | b :: rest => (seen || b) :: spread (seen || b) rest

/-- Where a match of one more token may end.  The places of a name are marked in order, from before
its first character to after its last. -/
def Token.advance (name : List Char) (reached : List Bool) : Token → List Bool
  | .anySequence | .anyDirectories => spread false reached
  | t => false :: List.zipWith (fun c r => r && t.holds c) name reached

/-- Whether tokens match a name: whether a match may end after its last character. -/
def matchTokens (ts : List Token) (name : List Char) : Bool :=
  let start := true :: name.map fun _ => false
  (ts.foldl (Token.advance name) start).getLast? == some true

/-- A component of a pattern: any directories, a plain name, or tokens to match a name with. -/
inductive Component where
  | directories
  | plain (name : String)
  | tokens (ts : List Token)
deriving DecidableEq, Repr

/-- The characters of tokens that are all characters. -/
def plainName? : List Token → Option (List Char)
  | [] => some []
  | .char c :: ts => (plainName? ts).map (c :: ·)
  | _ :: _ => none

/-- The component that tokens make. -/
def Component.ofTokens (ts : List Token) : Component :=
  match plainName? ts with
  | some name => .plain (String.ofList name)
  | none => if ts.contains .anyDirectories then .directories else .tokens ts

end SchemaModel.Glob
