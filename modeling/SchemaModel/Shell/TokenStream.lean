import SchemaModel.Shell.Word

/-!
# A script as a stream of tokens

Blanks part words, a `#` that starts a word starts a comment, and a digit just before a redirection
is the descriptor that it is about.  Where a command may start, reserved words count as such, and an
alias is replaced by its text.  The lines after one with a document go to the document, up to a line
that is its mark.

* `TokenStream.Kinds` — what words may stand for where the next token is read;
* `TokenStream.next` — the next token;
* `TokenStream.documents` — the documents that are awaited.
-/

namespace SchemaModel.Shell.TokenStream

/-- What is done with line ends, and what words may stand for, where a token is read. -/
structure Kinds where
  skipsLines : Bool := false
  reserved : Bool := false
  aliases : Bool := false

/-- Where a command may start. -/
def Kinds.start : Kinds := { reserved := true, aliases := true }

/-- Where a command may start, perhaps after line ends. -/
def Kinds.startLater : Kinds := { skipsLines := true, reserved := true, aliases := true }

/-! ### Documents -/

/-- Whether a line goes on with the next one. -/
def goesOn (line : List Char) : Bool := (line.reverse.takeWhile (· = '\\')).length % 2 == 1

/-- Whether the end of a line is taken for the operator of a parameter between braces. -/
def isOperatorMissing (line : List Char) : Bool :=
  let back := line.reverse
  let back := if back.head? = some ':' then back.drop 1 else back
  let named := back.dropWhile Word.inName
  let special := back.drop 1
  let opens (back : List Char) : Bool :=
    match back with
    | '\x7b' :: '$' :: rest => !goesOn rest.reverse
    | _ => false
  opens named || back.head?.any Word.isSpecialParameter && opens special

/-- The lines of a document with the text that they take of a script, how many of their ends count,
and whether the mark of the document is after them. -/
structure Body where
  shown : List Char := []
  taken : Nat := 0
  ends : Nat := 0
  isMarked : Bool := false

/-- The lines of a document up to its mark.  Tabs at the start of a line may be left out, and a line
that another one goes on with is not the mark. -/
def documentBody (a : Awaited) (goneOn : Bool) (text : List Char) : Body :=
  match text with
  | [] => {}
  | c :: more =>
    let line := (c :: more).takeWhile (· ≠ '\n')
    let taken := line.length + 1
    let shown := if a.stripsTabs then line.dropWhile (· = '\t') else line
    let isWhole := line.length ≤ more.length
    if shown = a.mark ∧ !goneOn then { taken, ends := 1, isMarked := true }
    else if !isWhole then { shown, taken }
    else
      let isTaken := a.expands && isOperatorMissing line
      let others := documentBody a (isTaken || a.expands && goesOn line) (more.drop line.length)
      { others with
        shown := shown ++ '\n' :: others.shown
        taken := taken + others.taken
        ends := (if isTaken then 0 else 1) + others.ends }
termination_by text.length
decreasing_by simp only [List.length_drop, List.length_cons]; omega

/-- The word of a document.  What is open at its end is only missed after the mark. -/
def documentWord (s : Word.Setting) (body : List Char) (line : Nat) (isMarked : Bool) :
    Reading Word := do
  try Source.within body line (Word.ofDocument s)
  catch e => throw (if isMarked && e.fault.isOpen then { e with line := e.line + 1 } else e)

/-- Reads a document that is awaited. -/
def document (s : Word.Setting) (a : Awaited) : Reading Unit := do
  let source ← get
  let body := documentBody a false source.here
  let word ←
    if a.expands then documentWord s body.shown source.line body.isMarked
    else pure [.text true body.shown]
  modify fun after =>
    { source.withHere (source.here.drop body.taken) with
      line := source.line + body.ends
      documents := (a.number, word) :: after.documents
      documentCount := after.documentCount }

/-- Reads the documents that are awaited. -/
def documents (s : Word.Setting) : Reading Unit := do
  let source ← get
  set { source with awaited := [] }
  source.awaited.forM (document s)

/-! ### Tokens -/

/-- The operator of a redirection, after its first character. -/
def redirectionOperator (c : Char) : Reading String := do
  if c = '>' then
    if ← Word.takeIf '>' then return ">>"
    else if ← Word.takeIf '|' then return ">|"
    else if ← Word.takeIf '&' then return ">&"
    else return ">"
  else
    if ← Word.takeIf '<' then return if ← Word.takeIf '-' then "<<-" else "<<"
    else if ← Word.takeIf '&' then return "<&"
    else if ← Word.takeIf '>' then return "<>"
    else return "<"

/-- A word, or a redirection with the digit before it. -/
def wordOrRedirection (s : Word.Setting) : Reading Token := do
  let w ← Word.read s
  let descriptor? : Option (Option Nat) :=
    match w with
    | [] => some none
    | [.text false [c]] => if c.isDigit then some (some (c.toNat - '0'.toNat)) else none
    | _ => none
  match descriptor?, (← get).here.head? with
  | some descriptor, some c =>
    if c = '<' ∨ c = '>' then
      Source.skip
      return .redirection descriptor (← redirectionOperator c)
    else return .word w
  | _, _ => return .word w

/-- The next token as it stands.  The number is more than that of the blanks before it. -/
def plain (s : Word.Setting) : Nat → Reading Token
  | 0 => return .ending
  | fuel + 1 => do
    let twice (mark : Char) : Reading Token := do
      Source.skip
      return .operator (if ← Word.takeIf mark then String.ofList [mark, mark] else mark.toString)
    match ← Source.peek with
    | none => return .ending
    | some c =>
      if c = ' ' ∨ c = '\t' then
        Source.skip
        plain s fuel
      else if c = '#' then
        Source.skipLine fuel
        plain s fuel
      else if c = '\n' then
        Source.skip
        return .newline
      else if c = '&' ∨ c = '|' ∨ c = ';' then twice c
      else if c = '(' ∨ c = ')' then
        Source.skip
        return .operator c.toString
      else wordOrRedirection s

/-- The token that has been put back, or else the next one as it stands. -/
def aheadOrPlain (s : Word.Setting) : Reading Token := do
  let source ← get
  match source.ahead with
  | some t =>
    set { source with ahead := none }
    return t
  | none => plain s (source.bound + 2)

/-- The next token, after line ends if they are skipped.  The number is more than that of the line
ends. -/
def afterLines (s : Word.Setting) (skipsLines : Bool) : Nat → Reading Token
  | 0 => return .ending
  | fuel + 1 => do
    let t ← aheadOrPlain s
    match t, skipsLines with
    | .newline, true =>
      documents s
      modify ({ · with reopens := false })
      afterLines s skipsLines fuel
    | t, _ => return t

/-- The next token, once more for each alias that has been replaced.  The number bounds their
count. -/
def nextFrom (s : Word.Setting) (k : Kinds) : Nat → Reading Token
  | 0 => return .ending
  | fuel + 1 => do
    let t ← afterLines s k.skipsLines ((← get).bound + 2)
    let source ← get
    let k := { k with aliases := k.aliases || source.reopens }
    set { source with reopens := false }
    match t with
    | .word w =>
      match w.literal?.map String.ofList with
      | some text =>
        if k.reserved ∧ Token.reservedWords.contains text then return .reserved text
        else if k.aliases then
          match source.aliasText? text with
          | some inserted =>
            modify (·.insert text inserted)
            nextFrom s k fuel
          | none => return t
        else return t
      | none => return t
    | t => return t

/-- The greatest number of aliases that stand for one another. -/
def aliasLimit : Nat := 10000

/-- The next token. -/
def next (s : Word.Setting) (k : Kinds) : Reading Token := nextFrom s k aliasLimit

/-- The next token, which stays the next one. -/
def look (s : Word.Setting) (k : Kinds) : Reading Token := do
  let t ← next s k
  Source.putBack t
  return t

/-- A token where it does not belong. -/
def unexpected {α : Type} (expected : Option String) (t : Token) : Reading α :=
  Source.fail (.unexpected t.shown expected)

end SchemaModel.Shell.TokenStream
