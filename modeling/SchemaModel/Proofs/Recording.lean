import Mathlib
import SchemaModel.CommandLine.Run

/-!
# What a run asks of its host

A host can keep a record of what it is asked to change, and a run cannot tell: it goes as it does
on the host that keeps none.  The record shows what the final state alone does not, such as a write
whose file is overwritten later or a write that fails.

* `Host.Shows` — a host whose operations show those of another one;
* `Host.Shows.batch_run`, `Host.Shows.command_run` — a run on the one shows the run on the other;
* `Request` — something that a host is asked to change, and how that went;
* `Host.recording` — a host with a record of its requests.
-/

namespace SchemaModel

variable {σ τ : Type}

/-! ### Hosts that show other hosts -/

/-- What a formatter command leaves behind, seen through a map of states. -/
def Formatted.map (shown : τ → σ) (f : Formatted τ) : Formatted σ :=
  ⟨shown f.state, f.out, f.err, f.exit⟩

/-- What has been printed so far, with the state seen through a map. -/
def Batch.Progress.map (shown : τ → σ) (p : Batch.Progress τ) : Batch.Progress σ :=
  ⟨shown p.state, p.printed⟩

/-- What a command leaves behind, with the state seen through a map. -/
def CommandLine.Outcome.map (shown : τ → σ) (o : CommandLine.Outcome τ) :
    CommandLine.Outcome σ :=
  ⟨shown o.state, o.out, o.err, o.status⟩

/-- Every operation of a host does on the states what an operation of another host does on what
these states show. -/
structure Host.Shows (fine : Host τ) (coarse : Host σ) (shown : τ → σ) : Prop where
  hasEntry (t : τ) (path : String) : fine.hasEntry t path = coarse.hasEntry (shown t) path
  readText (t : τ) (path : String) : fine.readText t path = coarse.readText (shown t) path
  expand (t : τ) (pattern : String) : fine.expand t pattern = coarse.expand (shown t) pattern
  makeDirectories (t : τ) (path : String) :
    coarse.makeDirectories (shown t) path = (fine.makeDirectories t path).map shown id
  write (t : τ) (path text : String) :
    coarse.write (shown t) path text = (fine.write t path text).map shown id
  format (t : τ) (command : List String) :
    coarse.format (shown t) command = (fine.format t command).map shown

namespace Host.Shows

variable {fine : Host τ} {coarse : Host σ} {shown : τ → σ} (h : fine.Shows coarse shown)
include h

theorem load (t : τ) (path : String) :
    Settings.load coarse (shown t) path = Settings.load fine t path := by
  simp only [Settings.load, h.hasEntry, h.readText]

theorem resolveInput (t : τ) (pattern : String) :
    Batch.resolveInput coarse (shown t) pattern = Batch.resolveInput fine t pattern := by
  simp only [Batch.resolveInput, h.hasEntry, h.expand]

theorem resolveInputs (t : τ) (patterns : List String) :
    Batch.resolveInputs coarse (shown t) patterns = Batch.resolveInputs fine t patterns := by
  induction patterns with
  | nil => rfl
  | cons pattern rest ih => rw [Batch.resolveInputs, Batch.resolveInputs, h.resolveInput, ih]

theorem compileSource (t : τ) (options : Options) (path : String) :
    Batch.compileSource coarse (shown t) options path =
      Batch.compileSource fine t options path := by
  simp only [Batch.compileSource, h.readText]

theorem batch_format (p : Batch.Progress τ) (command : List String) :
    Batch.format coarse (p.map shown) command =
      (Batch.format fine p command).map (·.map shown) id := by
  cases command with
  | nil => rfl
  | cons program arguments =>
    have same := h.format p.state (program :: arguments)
    simp only [Batch.format, Batch.Progress.map, same]
    generalize fine.format p.state (program :: arguments) = f
    obtain ⟨state, out, err, exit⟩ := f
    simp only [Formatted.map]
    split <;> rfl

theorem makeDirectories_eq {t made : τ} {path : String} {failure : Option OsError}
    (hmade : fine.makeDirectories t path = (made, failure)) :
    coarse.makeDirectories (shown t) path = (shown made, failure) := by
  rw [h.makeDirectories, hmade]
  rfl

theorem write_eq {t wrote : τ} {path text : String} {failure : Option OsError}
    (hwrote : fine.write t path text = (wrote, failure)) :
    coarse.write (shown t) path text = (shown wrote, failure) := by
  rw [h.write, hwrote]
  rfl

theorem emit (b : Batch) (settings : Settings) (p : Batch.Progress τ) (path : String)
    (model : Model) :
    b.emit coarse settings (p.map shown) path model =
      (b.emit fine settings p path model).map (·.map shown) id := by
  by_cases dash : b.out = "-"
  · rw [Batch.emit_shown dash, Batch.emit_shown dash]
    rfl
  · cases hmade : fine.makeDirectories p.state b.out with
    | mk made failure =>
      have hmade' := h.makeDirectories_eq hmade
      cases failure with
      | some e =>
        rw [Batch.emit_noDirectory dash hmade, Batch.emit_noDirectory dash hmade']
        rfl
      | none =>
        cases hwrote : fine.write made (settings.outputPathFor path b.out)
          model.toJson.indented with
        | mk wrote failure =>
          have hwrote' := h.write_eq hwrote
          cases failure with
          | some e =>
            rw [Batch.emit_unwritable dash hmade hwrote, Batch.emit_unwritable dash hmade' hwrote']
            rfl
          | none =>
            rw [Batch.emit_written dash hmade hwrote, Batch.emit_written dash hmade' hwrote']
            cases b.noFormat with
            | true => rfl
            | false => exact h.batch_format { p with state := wrote } _

theorem finish (b : Batch) (settings : Settings) (p : Batch.Progress τ) (path : String)
    (compiled : Except Batch.SourceError Model) :
    b.finish coarse settings (p.map shown) path compiled =
      (b.finish fine settings p path compiled).map (·.map shown) id := by
  cases compiled with
  | error e => rfl
  | ok model =>
    simp only [Batch.finish, h.emit]
    rfl

theorem finishAll (b : Batch) (settings : Settings) (p : Batch.Progress τ)
    (sources : List (String × Except Batch.SourceError Model)) :
    b.finishAll coarse settings (p.map shown) sources =
      (b.finishAll fine settings p sources).map (·.map shown) id := by
  induction sources generalizing p with
  | nil => rfl
  | cons source rest ih =>
    simp only [Batch.finishAll, h.finish, Prod.map, ih]
    rfl

/-- A batch goes on a host as it does on a host that shows it. -/
theorem batch_run (b : Batch) (t : τ) :
    b.run coarse (shown t) = (b.run fine t).map (·.map shown) id := by
  unfold Batch.run
  rw [h.load]
  cases Settings.load fine t b.settings with
  | error e => rfl
  | ok settings =>
    simp only [h.resolveInputs]
    cases Batch.resolveInputs fine t b.inputs with
    | error e => rfl
    | ok paths =>
      simp only [h.compileSource]
      rw [show (⟨shown t, []⟩ : Batch.Progress σ) = Batch.Progress.map shown ⟨t, []⟩ from rfl,
        h.finishAll]
      rfl

/-- So does a command. -/
theorem command_run (c : CommandLine.Command) (t : τ) :
    c.run coarse (shown t) = (c.run fine t).map shown := by
  cases c with
  | metaSchema => rfl
  | describe b => rfl
  | compile b =>
    simp only [CommandLine.Command.run, h.batch_run]
    obtain ⟨p, verdict⟩ := b.run fine t
    cases verdict <;> rfl

end Host.Shows

/-! ### Hosts that keep a record -/

/-- Something that a host is asked to change, and how that went; what a formatter prints belongs to
it. -/
inductive Request where
  | makeDirectories (path : String) (failure : Option OsError)
  | write (path text : String) (failure : Option OsError)
  | format (command : List String) (exit : Exit) (out err : ByteArray)
deriving DecidableEq

/-- A host that keeps a record of what it is asked to change. -/
def Host.recording (host : Host σ) : Host (σ × List Request) where
  hasEntry s := host.hasEntry s.1
  readText s := host.readText s.1
  expand s := host.expand s.1
  makeDirectories s path :=
    let (state, failure) := host.makeDirectories s.1 path
    ((state, s.2 ++ [.makeDirectories path failure]), failure)
  write s path text :=
    let (state, failure) := host.write s.1 path text
    ((state, s.2 ++ [.write path text failure]), failure)
  format s command :=
    let f := host.format s.1 command
    ⟨(f.state, s.2 ++ [.format command f.exit f.out f.err]), f.out, f.err, f.exit⟩

theorem Host.recording_makeDirectories {host : Host σ} {s : σ × List Request} {made : σ}
    {path : String} {failure : Option OsError}
    (hmade : host.makeDirectories s.1 path = (made, failure)) :
    host.recording.makeDirectories s path =
      ((made, s.2 ++ [.makeDirectories path failure]), failure) := by
  simp only [recording, hmade]

theorem Host.recording_write {host : Host σ} {s : σ × List Request} {wrote : σ}
    {path text : String} {failure : Option OsError}
    (hwrote : host.write s.1 path text = (wrote, failure)) :
    host.recording.write s path text =
      ((wrote, s.2 ++ [.write path text failure]), failure) := by
  simp only [recording, hwrote]

theorem Host.recording_shows (host : Host σ) : host.recording.Shows host Prod.fst where
  hasEntry _ _ := rfl
  readText _ _ := rfl
  expand _ _ := rfl
  makeDirectories _ _ := rfl
  write _ _ _ := rfl
  format _ _ := rfl

end SchemaModel
