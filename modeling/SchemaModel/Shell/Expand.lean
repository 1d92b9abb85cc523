import SchemaModel.Shell.Arithmetic
import SchemaModel.Shell.Wildcard
import SchemaModel.Text.Lossy

/-!
# What words stand for

The parts of a word are replaced by what they stand for.  Where a word stands for fields, it is
parted outside quotes, and a field with wildcards is replaced by the paths that it matches.

* `Expand.fields` — the fields that a word stands for;
* `Expand.text`, `Expand.patternOf` — the single text, and the pattern, that a word stands for.
-/

namespace SchemaModel.Shell

/-- Replaces the parts of words in a shell, unless that fails with a message. -/
abbrev Expanding := Session.Changing

namespace Expand

open SchemaModel.Shell.Field (cellsOf textOf)
open Wildcard (pattern)

/-! ### Parts -/

/-- The mark between two arguments of a text that is still to be parted. -/
def between : Char := '\x00'

/-- The items of what has been inserted. -/
def stretch (quoted : Bool) (text : List Char) : List Item :=
  .stretch quoted :: text.map fun c => if c = between then .cut else .cell c quoted true

/-- Items within quotes, which count though they may be empty. -/
def enclosed (items : List Item) : List Item := .mark :: items ++ [.mark]

/-- The items of a value. -/
def valueItems (quoted : Bool) (text : List Char) : List Item :=
  if quoted then enclosed (text.map (Item.cell · true false)) else stretch false text

/-- The items of a word that has been inserted for a parameter.  What is plain text in it becomes a
stretch of its own, and the flag says whether one has begun. -/
def insertedItems (hasBegun : Bool) : List Item → List Item
  | .cell c false false :: rest =>
    let start := if hasBegun then [] else [.stretch false]
    start ++ .cell c false true :: insertedItems true rest
  | item :: rest => item :: insertedItems false rest
  | [] => []

/-- A text without its shortest or longest start that a pattern stands for.  Of some arguments the
first one loses it, or all is lost if the longest start is all of the first one. -/
def withoutStart (longest : Bool) (ts : List Pattern.Token) (text : List UInt8) : List UInt8 :=
  let first := text.takeWhile (· ≠ 0)
  let lengths := List.range (first.length + 1)
  let fits (n : Nat) : Bool := Pattern.fits ts (first.take n)
  if !longest then ((lengths.find? fits).map (text.drop ·)).getD text
  else if fits first.length then []
  else ((lengths.reverse.find? fits).map (text.drop ·)).getD text

/-- A text without its shortest or longest end that a pattern stands for.  Of some arguments those
after the one that loses it are lost as well; the longest end is one of the first argument. -/
def withoutEnd (longest : Bool) (ts : List Pattern.Token) (text : List UInt8) : List UInt8 :=
  let fits (n : Nat) : Bool := Pattern.fits ts ((text.drop n).takeWhile (· ≠ 0))
  let lengths :=
    if longest then List.range ((text.takeWhile (· ≠ 0)).length + 1)
    else (List.range (text.length + 1)).reverse
  ((lengths.find? fits).map (text.take ·)).getD text

/-- A text after something has been done to its bytes. -/
def onBytes (change : List UInt8 → List UInt8) (text : List Char) : List Char :=
  (Text.lossy ⟨(change (String.ofList text).toUTF8.toList).toArray⟩).toList

/-- The value of a parameter.  Where a word is parted, so are the arguments, unless they are to be
one value within quotes.  That of no arguments is empty. -/
def valueOf? (s : Session) (isParted quoted : Bool) (name : String) : Option (List Char) :=
  if name = "@" ∨ name = "*" then
    let separator := if isParted ∧ (name = "@" ∨ !quoted) then [between] else s.separators.take 1
    some (separator.intercalate ((s.arguments.drop 1).map String.toList))
  else (s.value? name).map String.toList

/-- The items of a parameter with a value; that of all arguments is a stretch even within quotes. -/
def parameterItems (quoted : Bool) (name : String) (text : List Char) : List Item :=
  if quoted ∧ name = "@" then stretch true text else valueItems quoted text

/-- Whether a value counts. -/
def isGiven (evenIfEmpty : Bool) (value : Option (List Char)) : Bool :=
  value.any fun text => !(evenIfEmpty && text.isEmpty)

/-- Whether an operator asks for a value. -/
def needsValue : Operator → Bool
  | .value | .length | .withoutStart _ | .withoutEnd _ => true
  | .orElse _ | .orAssign _ | .ifGiven _ | .orFail _ => false

/-- The home directory of a user, or of the one who runs the shell. -/
def home? (s : Session) (user : List Char) : Option String :=
  if user.isEmpty then s.bindings.lookup "HOME"
  else if user = "root".toList then some "/root"
  else none

/-- The items of a text.  A tilde at the start, or after a colon if that counts as one, stands with
the name after it for a home directory; the name has to end in the text unless it is the last. -/
def tildeItems (s : Session) (afterColons isLast atStart : Bool) (text : List Char) : List Item :=
  match text with
  | [] => []
  | c :: rest =>
    let name := rest.takeWhile fun d => d ≠ '/' && !(afterColons && d = ':')
    let isWhole := isLast || name.length < rest.length
    match if atStart && c = '~' && isWhole then home? s name else none with
    | some home =>
      home.toList.map (Item.cell · true false) ++
        tildeItems s afterColons isLast false (rest.drop name.length)
    | none => .cell c false false :: tildeItems s afterColons isLast (afterColons && c = ':') rest
termination_by text.length
decreasing_by all_goals simp only [List.length_drop, List.length_cons]; omega

/-- Where a tilde stands for a home directory: at the start of a word, and after its colons. -/
structure Tildes where
  atStart : Bool := false
  afterColons : Bool := false

/-- Gives the output of a command. -/
abbrev Output := Command → StateM Session String

mutual

/-- The items of a part, which may be the last one of its word.  The flag says whether the word is
parted. -/
def partItems (output : Output) (isParted : Bool) (t : Tildes) (isLast : Bool) :
    Part → Expanding (List Item)
  | .text true [] => return [.mark]
  | .text true s => return s.map fun c => .cell c true false
  | .text false s => return tildeItems (← get) t.afterColons isLast t.atStart s
  | .output quoted c => do
    let text ← (output c : StateM Session String)
    return valueItems quoted text.toList
  | .value quoted expression => do
    let items ← wordItems output false {} expression
    let text := textOf (cellsOf items)
    match ← (Arithmetic.value text).run with
    | .ok n => return valueItems quoted (toString n.toInt).toList
    | .error .overflow =>
      modify ({ · with ending := some (.killed Signal.arithmetic) })
      return []
    | .error f => throw (f.message text)
  | .meaningless => throw "Bad substitution"
  | .parameter quoted name op word => do
    let s ← get
    let value := valueOf? s isParted quoted name
    let text := value.getD []
    let isNothing := quoted && name = "@" && s.arguments.length ≤ 1
    let shown (text : List Char) : List Item :=
      if isNothing then [] else parameterItems quoted name text
    let around (items : List Item) : List Item := if quoted then enclosed items else items
    let inPlace : Expanding (List Item) :=
      return insertedItems false (← wordItems output isParted { t with atStart := true } word)
    let apart : Expanding (List Item) := wordItems output false { atStart := true } word
    if s.has 'u' ∧ needsValue op ∧ value.isNone then
      throw (name ++ ": parameter not set")
    match op with
    | .value => return shown text
    | .length =>
      let whole := String.ofList ((valueOf? s false quoted name).getD [])
      return valueItems quoted (toString whole.utf8ByteSize).toList
    | .orElse evenIfEmpty =>
      if isGiven evenIfEmpty value then return around (shown text)
      else return around (← inPlace)
    | .ifGiven evenIfEmpty =>
      if isGiven evenIfEmpty value then return around (← inPlace)
      else return around (shown [])
    | .orAssign evenIfEmpty =>
      if isGiven evenIfEmpty value then return around (shown text)
      else
        let value := textOf (cellsOf (← apart))
        match (← get).assign name value with
        | .ok s => set s
        | .error message => throw message
        return valueItems quoted value.toList
    | .orFail evenIfEmpty =>
      if isGiven evenIfEmpty value then return around (shown text)
      else
        let message := textOf (cellsOf (← apart))
        let usual := "parameter not set" ++ if evenIfEmpty then " or null" else ""
        throw (name ++ ": " ++ if message.isEmpty then usual else message)
    | .withoutStart longest =>
      let ts := pattern (cellsOf (← apart))
      return around (shown (onBytes (withoutStart longest ts) text))
    | .withoutEnd longest =>
      let ts := pattern (cellsOf (← apart))
      return around (shown (onBytes (withoutEnd longest ts) text))
termination_by structural p => p

/-- The items of a word. -/
def wordItems (output : Output) (isParted : Bool) (t : Tildes) :
    List Part → Expanding (List Item)
  | [] => return []
  | p :: rest => do
    let items ← partItems output isParted t rest.isEmpty p
    let others ← wordItems output isParted { t with atStart := false } rest
    return items ++ others
termination_by structural ps => ps

end

/-- The fields that a word stands for. -/
def fields (output : Output) (w : Word) : Expanding (List String) := do
  let items ← wordItems output true { atStart := true } w
  let s ← get
  let found := Field.split s.separators items
  return if s.has 'f' then found.map textOf else found.flatMap (Wildcard.matching s.tree)

/-- The pattern that a word stands for. -/
def patternOf (output : Output) (w : Word) : Expanding (List Pattern.Token) := do
  let items ← wordItems output false { atStart := true } w
  return pattern (cellsOf items)

/-- The single text that a word stands for. -/
def text (output : Output) (t : Tildes) (w : Word) : Expanding String := do
  let items ← wordItems output false t w
  return textOf (cellsOf items)

end Expand

end SchemaModel.Shell
