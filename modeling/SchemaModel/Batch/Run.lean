import SchemaModel.Json.Text
import SchemaModel.Model
import SchemaModel.Settings.Load

/-!
# A batch of schemas

A batch compiles every source that its input patterns name and writes one model for each.  All
sources are read and compiled before the first model is written; a source that fails does not stop
the others.  Each source gets one line of status, in order, and the batch fails if any source does.

* `Batch` — what is asked for;
* `Batch.resolveInputs` — the sources that the patterns name;
* `Batch.compileSource` — the model of a source;
* `Batch.Printed`, `Batch.Progress` — what has been printed so far, and on which channel;
* `Batch.emit` — writes a model and runs the formatter;
* `Batch.finishAll` — all sources, one after another;
* `Batch.run` — the whole batch.
-/

namespace SchemaModel

/-- What is asked for: input patterns, the settings file, where models go, and whether the
formatter is skipped. -/
structure Batch where
  inputs : List String
  settings : String := "settings.json"
  out : String := "out"
  noFormat : Bool := false
deriving DecidableEq, Repr

namespace Batch

/-- Why the input patterns name no sources. -/
inductive InputError where
  | invalidPattern (e : Glob.SyntaxError)
  | unsearchable (e : Glob.ReadError)
  | noMatch (pattern : String)
  | missing (path : String)
deriving DecidableEq, Repr

/-- The wording of an error. -/
def InputError.message : InputError → String
  | .invalidPattern e => e.message
  | .unsearchable e => e.message
  | .noMatch pattern => "glob pattern matched no files: " ++ pattern
  | .missing path => "file " ++ path ++ " does not exist"

/-- Why a source gets no model. -/
inductive SourceError where
  | unreadable (path : String) (e : OsError)
  | malformed (path : String) (e : Json.SyntaxError)
  | uncompilable (e : CompileError)
  | noDirectory (path : String) (e : OsError)
  | unwritable (path : String) (e : OsError)
  | formatterNotStarted (program : String) (e : OsError)
  | formatterFailed (command : List String) (exit : Exit)
deriving DecidableEq, Repr

/-- The wording of an error. -/
def SourceError.message : SourceError → String
  | .unreadable path e => "failed to read source file " ++ path ++ ": " ++ e.message
  | .malformed path e => "failed to parse JSON source file (" ++ path ++ "): " ++ e.message
  | .uncompilable e => e.message
  | .noDirectory path e => "failed to create output directory " ++ path ++ ": " ++ e.message
  | .unwritable path e => "failed to write " ++ path ++ ": " ++ e.message
  | .formatterNotStarted program e =>
    "failed to run formatter `" ++ program ++ "`: " ++ e.message
  | .formatterFailed command exit =>
    "formatter `" ++ " ".intercalate command ++ "` exited with " ++ exit.message

/-- Why a batch fails. -/
inductive Failure where
  | settings (e : Settings.LoadError)
  | inputs (e : InputError)
  | sources (failed total : Nat)
deriving DecidableEq, Repr

/-- The wording of a failure. -/
def Failure.message : Failure → String
  | .settings e => e.message
  | .inputs e => "failed to resolve input file paths: " ++ e.message
  | .sources failed total => toString failed ++ " of " ++ toString total ++ " schema(s) failed"

/-- The status line of a source, its colours left out. -/
def statusLine (path : String) : Except SourceError Unit → String
  | .ok () => "✅ " ++ path ++ "\n"
  | .error e => "❌ failed " ++ path ++ ": " ++ e.message ++ "\n"

/-- Something printed: the text of a model, what the formatter prints on both channels, or the
status of a source. -/
inductive Printed where
  | model (text : String)
  | formatter (out err : ByteArray)
  | status (path : String) (outcome : Except SourceError Unit)

/-- What goes to the output. -/
def Printed.out : Printed → ByteArray
  | .model text => (text ++ "\n").toUTF8
  | .formatter out _ => out
  | .status _ _ => ByteArray.empty

/-- What goes to the error channel. -/
def Printed.err : Printed → ByteArray
  | .model _ => ByteArray.empty
  | .formatter _ err => err
  | .status path outcome => (statusLine path outcome).toUTF8

/-- The state of the host with all that has been printed, in order. -/
structure Progress (σ : Type) where
  state : σ
  printed : List Printed := []

/-- All that has gone to the output. -/
def Progress.out (p : Progress σ) : ByteArray :=
  p.printed.foldl (fun bytes printed => bytes ++ printed.out) ByteArray.empty

/-- All that has gone to the error channel. -/
def Progress.err (p : Progress σ) : ByteArray :=
  p.printed.foldl (fun bytes printed => bytes ++ printed.err) ByteArray.empty

/-- Prints something more. -/
def Progress.print (p : Progress σ) (printed : Printed) : Progress σ :=
  { p with printed := p.printed ++ [printed] }

variable {σ : Type}

/-- The sources that a pattern names.  A pattern without wildcards names itself.  Others name what
they match; an entry that cannot be read ends the search, whatever has been found before it. -/
def resolveInput (host : Host σ) (state : σ) (pattern : String) :
    Except InputError (List String) :=
  if Glob.isPattern pattern then
    match host.expand state pattern with
    | .error e => .error (.invalidPattern e)
    | .ok entries =>
      match Glob.found entries with
      | .error e => .error (.unsearchable e)
      | .ok [] => .error (.noMatch pattern)
      | .ok paths => .ok paths
  else if host.hasEntry state pattern then .ok [pattern]
  else .error (.missing pattern)

/-- The sources that patterns name, in order and with repetitions. -/
def resolveInputs (host : Host σ) (state : σ) : List String → Except InputError (List String)
  | [] => .ok []
  | pattern :: rest => do
    let first ← resolveInput host state pattern
    let others ← resolveInputs host state rest
    return first ++ others

/-- The model of a source. -/
def compileSource (host : Host σ) (state : σ) (options : Options) (path : String) :
    Except SourceError Model :=
  match host.readText state path with
  | .error e => .error (.unreadable path e)
  | .ok text =>
    match Json.parse (some Json.fileDepthLimit) text with
    | .error e => .error (.malformed path e)
    | .ok document => (compile options .metaSchema document).mapError .uncompilable

/-- Runs the formatter; an empty command does nothing. -/
def format (host : Host σ) (p : Progress σ) (command : List String) :
    Progress σ × Except SourceError Unit :=
  match command with
  | [] => (p, .ok ())
  | program :: _ =>
    let f := host.format p.state command
    let p := { p with state := f.state }.print (.formatter f.out f.err)
    match f.exit with
    | .notStarted e => (p, .error (.formatterNotStarted program e))
    | .exited 0 => (p, .ok ())
    | exit => (p, .error (.formatterFailed command exit))

/-- Writes the model of a source, or prints it if the output is a dash. -/
def emit (b : Batch) (host : Host σ) (settings : Settings) (p : Progress σ) (path : String)
    (model : Model) : Progress σ × Except SourceError Unit :=
  let text := model.toJson.indented
  if b.out = "-" then (p.print (.model text), .ok ())
  else
    match host.makeDirectories p.state b.out with
    | (state, some e) => ({ p with state }, .error (.noDirectory b.out e))
    | (state, none) =>
      let target := settings.outputPathFor path b.out
      match host.write state target text with
      | (state, some e) => ({ p with state }, .error (.unwritable target e))
      | (state, none) =>
        let p := { p with state }
        if b.noFormat then (p, .ok ())
        else format host p (settings.formatterCommandFor target)

section Emit

variable {b : Batch} {host : Host σ} {settings : Settings} {p : Progress σ} {path : String}
  {model : Model}

theorem emit_shown (dash : b.out = "-") :
    b.emit host settings p path model = (p.print (.model model.toJson.indented), .ok ()) := by
  rw [emit, if_pos dash]

theorem emit_noDirectory (out : b.out ≠ "-") {state : σ} {e : OsError}
    (made : host.makeDirectories p.state b.out = (state, some e)) :
    b.emit host settings p path model =
      ({ p with state }, .error (.noDirectory b.out e)) := by
  rw [emit, if_neg out, made]

theorem emit_unwritable (out : b.out ≠ "-") {made wrote : σ} {e : OsError}
    (hmade : host.makeDirectories p.state b.out = (made, none))
    (hwrote : host.write made (settings.outputPathFor path b.out) model.toJson.indented =
      (wrote, some e)) :
    b.emit host settings p path model =
      ({ p with state := wrote }, .error (.unwritable (settings.outputPathFor path b.out) e)) := by
  rw [emit, if_neg out, hmade]
  simp only [hwrote]

theorem emit_written (out : b.out ≠ "-") {made wrote : σ}
    (hmade : host.makeDirectories p.state b.out = (made, none))
    (hwrote : host.write made (settings.outputPathFor path b.out) model.toJson.indented =
      (wrote, none)) :
    b.emit host settings p path model =
      if b.noFormat then ({ p with state := wrote }, .ok ())
      else format host { p with state := wrote }
        (settings.formatterCommandFor (settings.outputPathFor path b.out)) := by
  rw [emit, if_neg out, hmade]
  simp only [hwrote]

end Emit

/-- Finishes a compiled source: its model is written and its status is printed. -/
def finish (b : Batch) (host : Host σ) (settings : Settings) (p : Progress σ) (path : String)
    (compiled : Except SourceError Model) : Progress σ × Except SourceError Unit :=
  let (p, outcome) :=
    match compiled with
    | .ok model => b.emit host settings p path model
    | .error e => (p, .error e)
  (p.print (.status path outcome), outcome)

/-- Finishes compiled sources one after another, whether or not one fails. -/
def finishAll (b : Batch) (host : Host σ) (settings : Settings) (p : Progress σ) :
    List (String × Except SourceError Model) → Progress σ × List (Except SourceError Unit)
  | [] => (p, [])
  | (path, compiled) :: rest =>
    let (p, outcome) := b.finish host settings p path compiled
    let (p, outcomes) := b.finishAll host settings p rest
    (p, outcome :: outcomes)

/-- How a batch with these outcomes ends. -/
def verdict (outcomes : List (Except SourceError Unit)) : Except Failure Unit :=
  let failed := outcomes.countP fun outcome => !outcome.isOk
  if failed = 0 then .ok () else .error (.sources failed outcomes.length)

/-- Runs a batch. -/
def run (b : Batch) (host : Host σ) (state : σ) : Progress σ × Except Failure Unit :=
  let start : Progress σ := { state }
  match Settings.load host state b.settings with
  | .error e => (start, .error (.settings e))
  | .ok settings =>
    match resolveInputs host state b.inputs with
    | .error e => (start, .error (.inputs e))
    | .ok paths =>
      let compiled := paths.map fun path =>
        (path, compileSource host state settings.options path)
      let (p, outcomes) := b.finishAll host settings start compiled
      (p, verdict outcomes)

end Batch

end SchemaModel
