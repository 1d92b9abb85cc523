import SchemaModel.Shell.Escape
import SchemaModel.Shell.Tool.Basic

/-!
# Tools that print

* `Tool.runEcho` — prints its arguments;
* `Tool.runCat` — prints files.
-/

namespace SchemaModel.Shell.Tool

/-! ### Printing arguments -/

/-- Whether an argument holds options of the tool that prints its arguments. -/
def isEchoOption (argument : String) : Bool :=
  match argument.toList with
  | '-' :: c :: more => (c :: more).all fun c => c = 'n' || c = 'e' || c = 'E'
  | _ => false

/-- Prints arguments on a line, or without its end.  The last of the options on escapes counts. -/
def runEcho (c : Call) (w : Work) : Work :=
  let letters := (c.arguments.takeWhile isEchoOption).flatMap (·.toList)
  let text := " ".intercalate (c.arguments.dropWhile isEchoOption)
  let tail := if letters.contains 'n' then [] else [0x0A]
  let escapes := (letters.filter fun c => c = 'e' || c = 'E').getLast? = some 'e'
  w.print
    (if escapes then ⟨(Escape.bytes true text tail).toArray⟩ else text.toUTF8 ++ ⟨tail.toArray⟩)

/-! ### Printing files -/

/-- How files are printed: with numbers before all lines or those that are not blank, blank lines
after a blank one left out, and line ends, tabs and unseen bytes shown. -/
structure CatStyle where
  number : Bool
  numberNonblank : Bool
  squeeze : Bool
  ends : Bool
  tabs : Bool
  unseen : Bool

/-- The options of the tool that prints files. -/
def catKnown : Options.Known where
  names := ["number-nonblank", "number", "squeeze-blank", "show-nonprinting", "show-ends",
    "show-tabs", "show-all", "help", "version"].map (·, .nothing)
  letters := [('b', "number-nonblank"), ('n', "number"), ('s', "squeeze-blank"),
    ('v', "show-nonprinting"), ('E', "show-ends"), ('T', "show-tabs"), ('A', "show-all"),
    ('e', "e"), ('t', "t"), ('u', "u")]

/-- The style that options ask for. -/
def CatStyle.ofOptions (o : Options) : CatStyle where
  number := o.has ["number"]
  numberNonblank := o.has ["number-nonblank"]
  squeeze := o.has ["squeeze-blank"]
  ends := o.has ["show-all", "e", "show-ends"]
  tabs := o.has ["show-all", "t", "show-tabs"]
  unseen := o.has ["show-all", "e", "t", "show-nonprinting"]

/-- A byte as it is shown in a style; the flag says whether a line ends after it. -/
def CatStyle.byte (s : CatStyle) (b : UInt8) (beforeEnd : Bool) : List UInt8 :=
  let low (b : UInt8) : List UInt8 :=
    if b < 0x20 then [0x5E, b + 0x40] else if b = 0x7F then [0x5E, 0x3F] else [b]
  if b = 0x09 then if s.tabs then low b else [b]
  else if b = 0x0D ∧ s.ends ∧ beforeEnd then low b
  else if !s.unseen then [b]
  else if b < 0x80 then low b
  else 0x4D :: 0x2D :: low (b - 0x80)

/-- The number before a line, six places wide. -/
def lineNumber (n : Nat) : List UInt8 :=
  let digits := toString n
  (String.ofList (List.replicate (6 - digits.length) ' ') ++ digits ++ "\t").toUTF8.toList

/-- What each of some bytes is shown as in a style, after some lines and the number of blank lines
just before; the flag says whether a line starts here. -/
def CatStyle.pieces (s : CatStyle) (lines blank : Nat) (atStart : Bool) :
    List UInt8 → List (List UInt8)
  | [] => []
  | b :: rest =>
    let isEnd := b = 0x0A
    if isEnd ∧ atStart ∧ s.squeeze ∧ 0 < blank then [] :: s.pieces lines blank true rest
    else
      let numbered :=
        atStart && if s.numberNonblank then !isEnd else s.number
      let lines := if numbered then lines + 1 else lines
      let shown :=
        if isEnd then if s.ends then [0x24, b] else [b]
        else s.byte b (rest.head? == some 0x0A)
      ((if numbered then lineNumber lines else []) ++ shown) ::
        s.pieces lines (if isEnd ∧ atStart then blank + 1 else 0) isEnd rest

/-- One thing to print: the bytes of a file, or a complaint. -/
abbrev Printing := Except String ByteArray

/-- What is printed of files, and for the first dash of the input; the flags say whether that is
still there and whether anything has been printed.  A file that the output goes to is not printed to
its own end. -/
def catAll (c : Call) (t : FileTree) (unread hasPrinted : Bool) : List String → List Printing
  | [] => []
  | path :: rest =>
    let isInput := path = "-" || isInputPath path
    let content :=
      if isInput then
        match c.input with
        | .ok bytes => .ok (if unread then bytes else ByteArray.empty)
        | .error e => .error e
      else t.readBytes path
    let place := if isInput then c.source else (placeOf t path).toOption
    let first : Printing :=
      match content with
      | .ok content =>
        if place.isSome ∧ place = c.sink ∧ (hasPrinted ∨ !content.isEmpty) then
          .error (Quoted.nameIfNeeded path ++ ": input file is output file")
        else .ok content
      | .error e => .error (Quoted.nameIfNeeded path ++ ": " ++ e.name)
    let printsNow :=
      match first with
      | .ok bytes => !bytes.isEmpty
      | .error _ => false
    first :: catAll c t (unread && !isInput) (hasPrinted || printsNow) rest

/-- Prints things in a row, given how the bytes that are left are shown. -/
def catPrint (c : Call) (shown : List (List UInt8)) (w : Work) : List Printing → Work
  | [] => w
  | .ok bytes :: rest =>
    catPrint c (shown.drop bytes.size) (w.print ⟨(shown.take bytes.size).flatten.toArray⟩) rest
  | .error message :: rest => catPrint c shown (w.complain c message) rest

/-- The bytes of all things that are printed. -/
def catBytes (things : List Printing) : List UInt8 :=
  things.flatMap fun
    | .ok bytes => bytes.toList
    | .error _ => []

/-- Prints files; without any, the input. -/
def runCat (c : Call) (w : Work) : Work :=
  match Options.read catKnown c.arguments with
  | .error e => w.misuse c e.message
  | .ok o =>
    if o.isAboutItself then w
    else if !c.hasOutput then w.complain c "standard output: Bad file descriptor"
    else
      let paths := if o.operands.isEmpty then ["-"] else o.operands
      let things := catAll c w.tree true false paths
      let bytes := catBytes things
      let isPlain := o.given.all (·.1 = "u")
      let shown :=
        if isPlain then bytes.map ([·]) else (CatStyle.ofOptions o).pieces 0 0 true bytes
      let readsInput := paths.any fun path => path = "-" || isInputPath path
      let w := { catPrint c shown w things with readsInput }
      if !c.hasInput ∧ paths.contains "-" then
        w.complain c "closing standard input: Bad file descriptor"
      else w

end SchemaModel.Shell.Tool
