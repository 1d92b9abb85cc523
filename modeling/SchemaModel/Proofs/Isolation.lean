import SchemaModel.Proofs.FileMaps
import SchemaModel.Proofs.Lists
import SchemaModel.Proofs.ModelTexts
import SchemaModel.Proofs.Outcome
import SchemaModel.Proofs.Recording

/-!
# Sources of a batch do not disturb each other

A batch fails as a whole only before it has begun: without settings, or without the sources of some
pattern, nothing is written, and only the reason is printed.  From then on every source is handled
on its own.  Its model is compiled from what the host holds at the start, and what is written, run
and printed for it depends on this model and on how its own requests go.

* `Batch.resolveInputs_eq_ok`, `Batch.resolveInputs_eq_error` — the sources are those of each
  pattern in turn, up to the first one that names none;
* `Batch.Compiles` — a source has a model;
* `Batch.Emits` — how a model is written or shown: the requests, what is printed, and what goes
  wrong;
* `Batch.Handles` — how a source is handled, from what the host holds at the start;
* `Batch.handles_of_ok`, `Batch.handles_of_error` — with a model and without one;
* `Batch.Handles.attempts_iff` — for which sources a write is attempted;
* `Batch.Extends` — progress by some requests and by some that is printed;
* `Batch.emit_spec`, `Batch.finish_spec` — a single source;
* `Batch.finishAll_spec` — all sources, one after another;
* `Batch.run_of_unresolved`, `Batch.run_of_resolved` — a batch that fails before it has begun, and
  one that begins;
* `batch_isolates_sources` — the whole batch as a command;
* `unmade_directory_prevents_write` — a source with a model for which no write is attempted.

The writing of a model begins with the making of the output directory.  Where that fails it ends
there, and the file itself is not asked for.
-/

namespace SchemaModel

namespace Batch

/-! ### The sources of patterns -/

section Patterns

variable {σ : Type} {host : Host σ} {state : σ}

theorem resolveInputs_eq_ok {patterns : List String} {paths : List String} :
    resolveInputs host state patterns = .ok paths ↔
      ∃ named, List.Forall₂ (fun pattern paths => resolveInput host state pattern = .ok paths)
        patterns named ∧ named.flatten = paths := by
  induction patterns generalizing paths with
  | nil => simp [resolveInputs]
  | cons pattern rest ih =>
    rw [resolveInputs, Outcome.bind_eq_ok]
    constructor
    · rintro ⟨first, hfirst, h⟩
      obtain ⟨others, hothers, h⟩ := Outcome.bind_eq_ok.1 h
      obtain ⟨named, each, rfl⟩ := ih.1 hothers
      cases h
      exact ⟨first :: named, .cons hfirst each, rfl⟩
    · rintro ⟨named, each, rfl⟩
      cases each with
      | cons hfirst each =>
        exact ⟨_, hfirst, Outcome.bind_eq_ok.2 ⟨_, ih.2 ⟨_, each, rfl⟩, rfl⟩⟩

/-- Patterns fail as one of them does. -/
theorem resolveInputs_eq_error {patterns : List String} {e : InputError}
    (fails : resolveInputs host state patterns = .error e) :
    ∃ pattern ∈ patterns, resolveInput host state pattern = .error e := by
  induction patterns with
  | nil => cases fails
  | cons pattern rest ih =>
    rw [resolveInputs] at fails
    rcases Outcome.bind_eq_error.1 fails with first | ⟨paths, -, later⟩
    · exact ⟨pattern, List.mem_cons_self, first⟩
    · rcases Outcome.bind_eq_error.1 later with other | ⟨_, -, done⟩
      · obtain ⟨pattern', mem, h⟩ := ih other
        exact ⟨pattern', List.mem_cons_of_mem _ mem, h⟩
      · cases done

theorem resolveInputs_fails {patterns : List String} {pattern : String} (mem : pattern ∈ patterns)
    {e : InputError} (fails : resolveInput host state pattern = .error e) :
    ∃ e, resolveInputs host state patterns = .error e := by
  rcases Outcome.ok_or_error (resolveInputs host state patterns) with ⟨paths, resolved⟩ | failed
  · obtain ⟨named, each, -⟩ := resolveInputs_eq_ok.1 resolved
    obtain ⟨i, hi⟩ := List.mem_iff_getElem?.1 mem
    obtain ⟨paths, -, found⟩ := Forall₂.getElem?_left each hi
    cases fails.symm.trans found
  · exact failed

end Patterns

/-! ### How a source is handled -/

variable {σ : Type}

/-- A source has a model: its text is read and parsed, and the document compiles. -/
def Compiles (host : Host σ) (state : σ) (settings : Settings) (path : String) (model : Model) :
    Prop :=
  ∃ text document, host.readText state path = .ok text ∧
    Json.parse (some 128) text = .ok document ∧
    compile settings.options .metaSchema document = .ok model

/-- What a source fails with whose formatter ends so. -/
def formatterReason (command : List String) : Exit → Option String
  | .notStarted e =>
    some ("failed to run formatter `" ++ command.headD "" ++ "`: " ++ e.message)
  | .exited 0 => none
  | .exited status =>
    some ("formatter `" ++ " ".intercalate command ++ "` exited with " ++
      ("exit status: " ++ toString status))
  | .killed signal =>
    some ("formatter `" ++ " ".intercalate command ++ "` exited with " ++
      ("signal: " ++ Signal.shown signal))

/-- How the text of a model is written or shown: the requests, what is printed on both channels,
and the reason if it goes wrong.  Nothing but the text itself and what a formatter prints is
printed here. -/
inductive Emits (b : Batch) (settings : Settings) (path text : String) :
    List Request → ByteArray → ByteArray → Option String → Prop
  | shown : b.out = "-" → Emits b settings path text [] (text ++ "\n").toUTF8 .empty none
  | noDirectory (e : OsError) :
      b.out ≠ "-" →
      Emits b settings path text [.makeDirectories b.out (some e)] .empty .empty
        (some ("failed to create output directory " ++ b.out ++ ": " ++ e.message))
  | unwritable (e : OsError) :
      b.out ≠ "-" →
      Emits b settings path text
        [.makeDirectories b.out none, .write (settings.outputPathFor path b.out) text (some e)]
        .empty .empty
        (some ("failed to write " ++ settings.outputPathFor path b.out ++ ": " ++ e.message))
  | unformatted :
      b.out ≠ "-" →
      b.noFormat = true ∨
        settings.formatterCommandFor (settings.outputPathFor path b.out) = [] →
      Emits b settings path text
        [.makeDirectories b.out none, .write (settings.outputPathFor path b.out) text none]
        .empty .empty none
  | formatted (command : List String) (exit : Exit) (out err : ByteArray) :
      b.out ≠ "-" → b.noFormat = false →
      settings.formatterCommandFor (settings.outputPathFor path b.out) = command → command ≠ [] →
      Emits b settings path text
        [.makeDirectories b.out none, .write (settings.outputPathFor path b.out) text none,
          .format command exit out err]
        out err (formatterReason command exit)

/-- The handling of a source: its requests, what is printed on both channels before its status, and
the reason if it fails. -/
structure Handling where
  path : String
  requests : List Request
  out : ByteArray
  err : ByteArray
  reason : Option String

/-- A source that fails before anything is asked for or printed. -/
def Handling.failed (path reason : String) : Handling := ⟨path, [], .empty, .empty, some reason⟩

/-- The status line of a source. -/
def Handling.status (h : Handling) : String :=
  match h.reason with
  | none => "✅ " ++ h.path ++ "\n"
  | some reason => "❌ failed " ++ h.path ++ ": " ++ reason ++ "\n"

/-- How a source is handled, from what a host holds at the start.  Without a model it only gets its
status, and otherwise the JSON of its model is written or shown over several lines, in a text that
reads back. -/
inductive Handles (b : Batch) (host : Host σ) (state : σ) (settings : Settings) (path : String) :
    Handling → Prop
  | unreadable (e : OsError) :
      host.readText state path = .error e →
      Handles b host state settings path
        (.failed path ("failed to read source file " ++ path ++ ": " ++ e.message))
  | malformed (text : String) (e : Json.SyntaxError) :
      host.readText state path = .ok text →
      Json.parse (some 128) text = .error e →
      Handles b host state settings path
        (.failed path ("failed to parse JSON source file (" ++ path ++ "): " ++ e.message))
  | uncompilable (text : String) (document : Json) (e : CompileError) :
      host.readText state path = .ok text →
      Json.parse (some 128) text = .ok document →
      compile settings.options .metaSchema document = .error e →
      Handles b host state settings path (.failed path e.message)
  | emitted (model : Model) (v : Json) {requests : List Request} {out err : ByteArray}
      {reason : Option String} :
      Compiles host state settings path model →
      model.WrittenAs v → Json.parse none v.indented = .ok v →
      Emits b settings path v.indented requests out err reason →
      Handles b host state settings path ⟨path, requests, out, err, reason⟩

section Compiled

open Outcome (mapError_eq_ok mapError_eq_error)

variable {b : Batch} {host : Host σ} {state : σ} {settings : Settings} {path : String}

theorem compileSource_unreadable {e : OsError} (read : host.readText state path = .error e) :
    compileSource host state settings.options path = .error (.unreadable path e) := by
  simp only [compileSource, read]

theorem compileSource_malformed {text : String} {e : Json.SyntaxError}
    (read : host.readText state path = .ok text)
    (parsed : Json.parse (some Json.fileDepthLimit) text = .error e) :
    compileSource host state settings.options path = .error (.malformed path e) := by
  simp only [compileSource, read, parsed]

theorem compileSource_of_parsed {text : String} {document : Json}
    (read : host.readText state path = .ok text)
    (parsed : Json.parse (some Json.fileDepthLimit) text = .ok document) :
    compileSource host state settings.options path =
      (compile settings.options .metaSchema document).mapError .uncompilable := by
  simp only [compileSource, read, parsed]

theorem compileSource_eq_ok {model : Model} :
    compileSource host state settings.options path = .ok model ↔
      Compiles host state settings path model := by
  constructor
  · intro compiled
    cases read : host.readText state path with
    | error e => cases compiled.symm.trans (compileSource_unreadable read)
    | ok text =>
      cases parsed : Json.parse (some Json.fileDepthLimit) text with
      | error e => cases compiled.symm.trans (compileSource_malformed read parsed)
      | ok document =>
        rw [compileSource_of_parsed read parsed] at compiled
        exact ⟨text, document, read, parsed, mapError_eq_ok.1 compiled⟩
  · rintro ⟨text, document, read, parsed, compiled⟩
    rw [compileSource_of_parsed read parsed, compiled, Except.mapError]

/-- A source without a model fails with what its compilation fails with. -/
theorem handles_of_error {h : Handling} {e : SourceError}
    (fails : compileSource host state settings.options path = .error e) :
    Handles b host state settings path h ↔ h = .failed path e.message := by
  constructor
  · intro handles
    cases handles with
    | unreadable e' read => cases fails.symm.trans (compileSource_unreadable read); rfl
    | malformed text e' read parsed =>
      cases fails.symm.trans (compileSource_malformed read parsed); rfl
    | uncompilable text document e' read parsed uncompiled =>
      rw [compileSource_of_parsed read parsed, uncompiled] at fails
      cases fails; rfl
    | emitted model v compiles written reads emits =>
      cases fails.symm.trans (compileSource_eq_ok.2 compiles)
  · rintro rfl
    cases read : host.readText state path with
    | error e' =>
      cases fails.symm.trans (compileSource_unreadable read)
      exact .unreadable e' read
    | ok text =>
      cases parsed : Json.parse (some Json.fileDepthLimit) text with
      | error e' =>
        cases fails.symm.trans (compileSource_malformed read parsed)
        exact .malformed text e' read parsed
      | ok document =>
        rw [compileSource_of_parsed read parsed] at fails
        obtain ⟨e', uncompiled, rfl⟩ := mapError_eq_error.1 fails
        exact .uncompilable text document e' read parsed uncompiled

/-- A source with a model is handled by writing or showing this model. -/
theorem handles_of_ok {h : Handling} {model : Model}
    (compiled : compileSource host state settings.options path = .ok model) :
    Handles b host state settings path h ↔
      ∃ requests out err reason, h = ⟨path, requests, out, err, reason⟩ ∧
        Emits b settings path model.toJson.indented requests out err reason := by
  have compiles := compileSource_eq_ok.1 compiled
  constructor
  · intro handles
    cases handles with
    | unreadable e read => cases compiled.symm.trans (compileSource_unreadable read)
    | malformed text e read parsed =>
      cases compiled.symm.trans (compileSource_malformed read parsed)
    | uncompilable text document e read parsed uncompiled =>
      rw [compileSource_of_parsed read parsed, uncompiled] at compiled
      cases compiled
    | emitted model' v compiles' written reads emits =>
      cases compiled.symm.trans (compileSource_eq_ok.2 compiles')
      cases model.writtenAs_iff.1 written
      exact ⟨_, _, _, _, rfl, emits⟩
  · rintro ⟨requests, out, err, reason, rfl, emits⟩
    have reads : Json.parse none model.toJson.indented = .ok model.toJson := by
      obtain ⟨text, document, -, -, whole⟩ := compiles
      exact Model.parse_text whole
    exact .emitted model model.toJson compiles (model.writtenAs_iff.2 rfl) reads emits

/-- **A directory is asked for if the source has a model**, and a write is attempted exactly if the
directory is there or is made. -/
theorem Handles.attempts_iff {h : Handling} (handles : Handles b host state settings path h)
    (out : b.out ≠ "-") :
    ((∃ failure, .makeDirectories b.out failure ∈ h.requests) ↔
        ∃ model, Compiles host state settings path model) ∧
      ((∃ target text failure, .write target text failure ∈ h.requests) ↔
        .makeDirectories b.out none ∈ h.requests) := by
  rcases Outcome.ok_or_error (compileSource host state settings.options path) with
    ⟨model, compiled⟩ | ⟨e, fails⟩
  · obtain ⟨requests, printed, err, reason, rfl, emits⟩ := (handles_of_ok compiled).1 handles
    have some : ∃ model, Compiles host state settings path model :=
      ⟨model, compileSource_eq_ok.1 compiled⟩
    cases emits with
    | shown dash => exact absurd dash out
    | _ => simp [some]
  · cases (handles_of_error fails).1 handles
    have none : ¬ ∃ model, Compiles host state settings path model := by
      rintro ⟨model, compiles⟩
      cases fails.symm.trans (compileSource_eq_ok.2 compiles)
    simp [Handling.failed, none]

end Compiled

/-! ### A single source -/

/-- Progress by some requests and by some that is printed on both channels. -/
structure Extends (p p' : Progress (σ × List Request)) (requests : List Request)
    (out err : ByteArray) : Prop where
  record : p'.state.2 = p.state.2 ++ requests
  out : p'.out = p.out ++ out
  err : p'.err = p.err ++ err

/-- The bytes of several texts, one after another. -/
def joined : List ByteArray → ByteArray
  | [] => .empty
  | bytes :: rest => bytes ++ joined rest

theorem Progress.out_print (p : Progress σ) (last : Printed) :
    (p.print last).out = p.out ++ last.out := by
  simp [Progress.out, Progress.print]

theorem Progress.err_print (p : Progress σ) (last : Printed) :
    (p.print last).err = p.err ++ last.err := by
  simp [Progress.err, Progress.print]

/-- A change of the state prints nothing. -/
theorem Extends.refl (p : Progress (σ × List Request)) (state : σ) (requests : List Request) :
    Extends p { p with state := (state, p.state.2 ++ requests) } requests .empty .empty :=
  ⟨rfl, ByteArray.append_empty.symm, ByteArray.append_empty.symm⟩

theorem Extends.trans {p p' p'' : Progress (σ × List Request)} {requests requests' : List Request}
    {out out' err err' : ByteArray} (h : Extends p p' requests out err)
    (h' : Extends p' p'' requests' out' err') :
    Extends p p'' (requests ++ requests') (out ++ out') (err ++ err') := by
  constructor
  · rw [h'.record, h.record, List.append_assoc]
  · rw [h'.out, h.out, ByteArray.append_assoc]
  · rw [h'.err, h.err, ByteArray.append_assoc]

theorem Extends.print {p p' : Progress (σ × List Request)} {requests : List Request}
    {out err : ByteArray} (h : Extends p p' requests out err) (last : Printed) :
    Extends p (p'.print last) requests (out ++ last.out) (err ++ last.err) := by
  constructor
  · exact h.record
  · rw [Progress.out_print, h.out, ByteArray.append_assoc]
  · rw [Progress.err_print, h.err, ByteArray.append_assoc]

/-- The wording of the error that an outcome ends with. -/
def reason? (outcome : Except SourceError Unit) : Option String :=
  (Outcome.error? outcome).map SourceError.message

/-- How a formatter command that exits so ends. -/
def formatterOutcome (command : List String) : Exit → Except SourceError Unit
  | .notStarted e => .error (.formatterNotStarted (command.headD "") e)
  | .exited 0 => .ok ()
  | exit => .error (.formatterFailed command exit)

theorem reason?_formatterOutcome (command : List String) (exit : Exit) :
    reason? (formatterOutcome command exit) = formatterReason command exit := by
  cases exit with
  | exited status => cases status <;> rfl
  | _ => rfl

/-- A formatter command is run, and its exit decides. -/
theorem format_spec (host : Host σ) (p : Progress (σ × List Request)) {command : List String}
    (nonempty : command ≠ []) :
    ∃ exit out err,
      reason? (format host.recording p command).2 = formatterReason command exit ∧
        Extends p (format host.recording p command).1 [.format command exit out err]
          out err := by
  cases command with
  | nil => exact absurd rfl nonempty
  | cons program arguments =>
    generalize ran : host.format p.state.1 (program :: arguments) = f
    have same : format host.recording p (program :: arguments) =
        (({ p with state := (f.state, p.state.2 ++
            [.format (program :: arguments) f.exit f.out f.err]) } :
            Progress (σ × List Request)).print (.formatter f.out f.err),
          formatterOutcome (program :: arguments) f.exit) := by
      simp only [format, Host.recording, ran, formatterOutcome]
      cases f.exit with
      | notStarted e => rfl
      | killed signal => rfl
      | exited status => cases status <;> rfl
    have grown := (Extends.refl p f.state
      [.format (program :: arguments) f.exit f.out f.err]).print (.formatter f.out f.err)
    rw [ByteArray.empty_append, ByteArray.empty_append] at grown
    rw [same]
    exact ⟨f.exit, f.out, f.err, reason?_formatterOutcome _ _, grown⟩

/-- **The step for a model**: what its writing asks for and prints. -/
theorem emit_spec (b : Batch) (host : Host σ) (settings : Settings)
    (p : Progress (σ × List Request)) (path : String) (model : Model) :
    ∃ requests out err,
      Emits b settings path model.toJson.indented requests out err
          (reason? (b.emit host.recording settings p path model).2) ∧
        Extends p (b.emit host.recording settings p path model).1 requests out err := by
  by_cases dash : b.out = "-"
  · rw [emit_shown dash]
    have grown := (Extends.refl p p.state.1 []).print (.model model.toJson.indented)
    rw [List.append_nil, ByteArray.empty_append, ByteArray.empty_append] at grown
    exact ⟨_, _, _, .shown dash, grown⟩
  cases hmade : host.makeDirectories p.state.1 b.out with
  | mk made failure =>
    have hmade' := Host.recording_makeDirectories hmade
    cases failure with
    | some e =>
      rw [emit_noDirectory dash hmade']
      exact ⟨_, _, _, .noDirectory e dash, .refl p made _⟩
    | none =>
      cases hwrote : host.write made (settings.outputPathFor path b.out)
        model.toJson.indented with
      | mk wrote failure =>
        have hwrote' := Host.recording_write
          (s := (made, p.state.2 ++ [.makeDirectories b.out none])) hwrote
        have grown : ∀ failure, Extends p
            { p with state := (wrote, p.state.2 ++ [.makeDirectories b.out none] ++
              [.write (settings.outputPathFor path b.out) model.toJson.indented failure]) }
            [.makeDirectories b.out none,
              .write (settings.outputPathFor path b.out) model.toJson.indented failure]
            .empty .empty := by
          intro failure
          rw [List.append_assoc]
          exact .refl p wrote _
        cases failure with
        | some e =>
          rw [emit_unwritable dash hmade' hwrote']
          exact ⟨_, _, _, .unwritable e dash, grown (some e)⟩
        | none =>
          rw [emit_written dash hmade' hwrote']
          by_cases skip : b.noFormat = true
          · rw [if_pos skip]
            exact ⟨_, _, _, .unformatted dash (.inl skip), grown none⟩
          rw [if_neg skip]
          by_cases unset : settings.formatterCommandFor (settings.outputPathFor path b.out) = []
          · rw [unset]
            exact ⟨_, _, _, .unformatted dash (.inr unset), grown none⟩
          · obtain ⟨exit, out, err, ends, further⟩ := format_spec host
              { p with state := (wrote, p.state.2 ++ [.makeDirectories b.out none] ++
                [.write (settings.outputPathFor path b.out) model.toJson.indented none]) } unset
            have all := (grown none).trans further
            rw [ByteArray.empty_append, ByteArray.empty_append] at all
            rw [ends]
            have asked : b.noFormat = false := Bool.eq_false_iff.2 skip
            exact ⟨_, out, err, .formatted _ exit out err dash asked rfl unset, all⟩

/-- The status line tells the outcome. -/
theorem statusLine_eq (h : Handling) {outcome : Except SourceError Unit}
    (ends : reason? outcome = h.reason) : statusLine h.path outcome = h.status := by
  rw [Handling.status, ← ends]
  cases outcome <;> rfl

/-- **The step for a source**: it is handled, and nothing else happens. -/
theorem finish_spec (b : Batch) (host : Host σ) (start : σ) (settings : Settings)
    (p : Progress (σ × List Request)) (path : String) :
    let finished := b.finish host.recording settings p path
      (compileSource host start settings.options path)
    ∃ h : Handling,
      Handles b host start settings path h ∧ reason? finished.2 = h.reason ∧
        Extends p finished.1 h.requests h.out (h.err ++ h.status.toUTF8) := by
  intro finished
  have status : ∀ (h : Handling) (q : Progress (σ × List Request)) outcome, h.path = path →
      reason? outcome = h.reason → Extends p q h.requests h.out h.err →
      Extends p (q.print (.status path outcome)) h.requests h.out (h.err ++ h.status.toUTF8) := by
    rintro h q outcome rfl ends grown
    have printed := grown.print (.status h.path outcome)
    rw [Printed.out, Printed.err, ByteArray.append_empty, statusLine_eq h ends] at printed
    exact printed
  rcases Outcome.ok_or_error (compileSource host start settings.options path) with
    ⟨model, compiled⟩ | ⟨e, fails⟩
  · obtain ⟨requests, out, err, emits, grown⟩ := emit_spec b host settings p path model
    refine ⟨_, (handles_of_ok compiled).2 ⟨requests, out, err, _, rfl, emits⟩, ?_, ?_⟩
    · simp only [finished, compiled, finish]
    · simp only [finished, compiled, finish]
      exact status ⟨path, requests, out, err, _⟩ _ _ rfl rfl grown
  · refine ⟨_, (handles_of_error fails).2 rfl, ?_, ?_⟩
    · simp only [finished, fails, finish]
      rfl
    · simp only [finished, fails, finish]
      have nothing := Extends.refl p p.state.1 []
      rw [List.append_nil] at nothing
      exact status (.failed path e.message) p (.error e) rfl rfl nothing

/-! ### The whole batch -/

/-- Sources with what came of their compilation. -/
def compiledSources (host : Host σ) (state : σ) (options : Options) (paths : List String) :
    List (String × Except SourceError Model) :=
  paths.map fun path => (path, compileSource host state options path)

/-- **The run over all sources**: each is handled in its turn, whatever became of those before. -/
theorem finishAll_spec (b : Batch) (host : Host σ) (start : σ) (settings : Settings)
    (p : Progress (σ × List Request)) (paths : List String) :
    let finished := b.finishAll host.recording settings p
      (compiledSources host start settings.options paths)
    ∃ handled : List Handling,
      List.Forall₂ (Handles b host start settings) paths handled ∧
        finished.2.map reason? = handled.map (·.reason) ∧
        Extends p finished.1 (handled.flatMap (·.requests)) (joined (handled.map (·.out)))
          (joined (handled.map fun h => h.err ++ h.status.toUTF8)) := by
  induction paths generalizing p with
  | nil =>
    have nothing := Extends.refl p p.state.1 []
    rw [List.append_nil] at nothing
    exact ⟨[], .nil, rfl, nothing⟩
  | cons path rest ih =>
    obtain ⟨h, handles, reason, grown⟩ := finish_spec b host start settings p path
    obtain ⟨handled, each, reasons, further⟩ := ih (b.finish host.recording settings p path
      (compileSource host start settings.options path)).1
    refine ⟨h :: handled, .cons handles each, ?_, grown.trans further⟩
    rw [List.map_cons, ← reason, ← reasons]
    rfl

theorem isSome_reason? (outcome : Except SourceError Unit) :
    (reason? outcome).isSome = !outcome.isOk := by
  cases outcome <;> rfl

theorem verdict_eq {outcomes : List (Except SourceError Unit)} {handled : List Handling}
    (same : outcomes.map reason? = handled.map (·.reason)) :
    verdict outcomes =
      if handled.countP (·.reason.isSome) = 0 then .ok ()
      else .error (.sources (handled.countP (·.reason.isSome)) handled.length) := by
  have failed : outcomes.countP (fun outcome => !outcome.isOk) =
      handled.countP (·.reason.isSome) := by
    have counted := congrArg (List.countP Option.isSome) same
    rw [List.countP_map, List.countP_map] at counted
    rw [← show Option.isSome ∘ Handling.reason = (·.reason.isSome) from rfl, ← counted]
    exact congrArg (List.countP · outcomes) (funext fun o => (isSome_reason? o).symm)
  have length : outcomes.length = handled.length := by
    simpa using congrArg List.length same
  simp only [verdict, failed, length]

/-- A batch that fails before it has begun leaves everything as it is. -/
theorem run_of_unresolved {b : Batch} {host : Host σ} {state : σ}
    (unresolved : (∃ e, Settings.load host state b.settings = .error e) ∨
      ∃ pattern ∈ b.inputs, ∃ e, resolveInput host state pattern = .error e) :
    ∃ failure, b.run host state = ({ state }, .error failure) ∧
      ((∃ e, Settings.load host state b.settings = .error e ∧ failure.message = e.message) ∨
        ∃ pattern ∈ b.inputs, ∃ e, resolveInput host state pattern = .error e ∧
          failure.message = "failed to resolve input file paths: " ++ e.message) := by
  unfold run
  cases loaded : Settings.load host state b.settings with
  | error e => exact ⟨.settings e, rfl, .inl ⟨e, rfl, rfl⟩⟩
  | ok settings =>
    rcases unresolved with ⟨e, unloaded⟩ | ⟨pattern, mem, e, unnamed⟩
    · cases loaded.symm.trans unloaded
    · obtain ⟨e, fails⟩ := resolveInputs_fails mem unnamed
      obtain ⟨pattern', mem', unnamed'⟩ := resolveInputs_eq_error fails
      exact ⟨.inputs e, by simp only [fails], .inr ⟨pattern', mem', e, unnamed', rfl⟩⟩

theorem run_of_resolved {b : Batch} {host : Host σ} {state : σ} {settings : Settings}
    {named : List (List String)} (loaded : Settings.load host state b.settings = .ok settings)
    (each : List.Forall₂ (fun pattern paths => resolveInput host state pattern = .ok paths)
      b.inputs named) :
    b.run host state =
      let run := b.finishAll host settings { state }
        (compiledSources host state settings.options named.flatten)
      (run.1, verdict run.2) := by
  have resolved := resolveInputs_eq_ok.2 ⟨named, each, rfl⟩
  simp only [run, loaded, resolved]
  rfl

end Batch

open Batch

variable {σ : Type}

/-- **The sources of a batch are isolated from each other.**  The run of a batch is its run on a
host that keeps a record.  Without settings, or with a pattern that names no sources, the run fails,
nothing has been asked for or printed to the output, and the error channel says why.  Otherwise
every source that the patterns name is handled, in order, with the model compiled from what the host
held before the run: the record and all that is printed are those of the sources one after another,
each with one line of status.  For the sources that have models a directory is asked for, and where
it is there or is made, a write is attempted.  The run fails exactly if some source did, and says
how many. -/
theorem batch_isolates_sources (b : Batch) (host : Host σ) (state : σ) :
    let run := (CommandLine.Command.compile b).run host.recording (state, [])
    (CommandLine.Command.compile b).run host state = run.map Prod.fst ∧
    (((∃ e, Settings.load host state b.settings = .error e) ∨
        ∃ pattern ∈ b.inputs, ∃ e, resolveInput host state pattern = .error e) →
      run.status = 1 ∧ run.state = (state, []) ∧ run.out = ByteArray.empty ∧
      ∃ reason, run.err = ("error: " ++ reason ++ "\n").toUTF8 ∧
        ((∃ e, Settings.load host state b.settings = .error e ∧ reason = e.message) ∨
          ∃ pattern ∈ b.inputs, ∃ e, resolveInput host state pattern = .error e ∧
            reason = "failed to resolve input file paths: " ++ e.message)) ∧
    ∀ settings named, Settings.load host state b.settings = .ok settings →
      List.Forall₂ (fun pattern paths => resolveInput host state pattern = .ok paths)
        b.inputs named →
      ∃ handled : List Handling,
        List.Forall₂ (Handles b host state settings) named.flatten handled ∧
        run.state.2 = handled.flatMap (·.requests) ∧
        run.out = joined (handled.map (·.out)) ∧
        (b.out ≠ "-" → List.Forall₂
          (fun path h =>
            ((∃ failure, .makeDirectories b.out failure ∈ h.requests) ↔
              ∃ model, Compiles host state settings path model) ∧
            ((∃ target text failure, .write target text failure ∈ h.requests) ↔
              .makeDirectories b.out none ∈ h.requests)) named.flatten handled) ∧
        let failed := handled.countP (·.reason.isSome)
        run.status = (if failed = 0 then 0 else 1) ∧
        run.err = joined (handled.map fun h => h.err ++ h.status.toUTF8) ++
          (if failed = 0 then ByteArray.empty else
            ("error: " ++ (toString failed ++ " of " ++ toString handled.length ++
              " schema(s) failed") ++ "\n").toUTF8) := by
  intro run
  have shows := Host.recording_shows host
  refine ⟨shows.command_run _ (state, []), ?_, ?_⟩
  · intro unresolved
    obtain ⟨failure, ran, reason⟩ :
        ∃ failure, b.run host.recording (state, []) =
            ({ state := (state, []) }, .error failure) ∧
          ((∃ e, Settings.load host state b.settings = .error e ∧ failure.message = e.message) ∨
            ∃ pattern ∈ b.inputs, ∃ e, resolveInput host state pattern = .error e ∧
              failure.message = "failed to resolve input file paths: " ++ e.message) :=
      run_of_unresolved unresolved
    have ends : run = ⟨(state, []), ByteArray.empty, ByteArray.empty ++
        ("error: " ++ failure.message ++ "\n").toUTF8, 1⟩ := by
      simp only [run, CommandLine.Command.run, ran]
      rfl
    rw [ends]
    exact ⟨rfl, rfl, rfl, failure.message, ByteArray.empty_append, reason⟩
  · intro settings named loaded each
    let sources := compiledSources host state settings.options named.flatten
    obtain ⟨handled, handles, reasons, grown⟩ :=
      finishAll_spec b host state settings { state := (state, []) } named.flatten
    have ran : b.run host.recording (state, []) =
        ((b.finishAll host.recording settings { state := (state, []) } sources).1,
          verdict (b.finishAll host.recording settings { state := (state, []) } sources).2) :=
      run_of_resolved loaded each
    rw [verdict_eq reasons] at ran
    have out := grown.out.trans ByteArray.empty_append
    have err := grown.err.trans ByteArray.empty_append
    refine ⟨handled, handles, ?_, ?_, fun out => ?_, ?_⟩
    · simp only [run, CommandLine.Command.run, ran]
      split <;> exact grown.record
    · simp only [run, CommandLine.Command.run, ran]
      split <;> exact out
    · exact handles.imp fun path h handles => handles.attempts_iff out
    · simp only [run, CommandLine.Command.run, ran]
      by_cases unfailed : handled.countP (·.reason.isSome) = 0
      · simp only [if_pos unfailed, ByteArray.append_empty]
        exact ⟨trivial, err⟩
      · simp only [if_neg unfailed]
        exact ⟨trivial, congrArg (· ++ _) err⟩

/-- A source that is no document, one whose model is written over a later source, and that later
source. -/
def rewritten : List (String × String) :=
  [("in/a.json", "["), ("in/b.json", "\x7b\"type\": \"string\"\x7d"),
    ("out/b.model.json", "\x7b\"type\": \"integer\"\x7d")]

/-- A batch over the three. -/
def rewrittenBatch : Batch :=
  { inputs := ["in/a.json", "in/b.json", "out/b.model.json"], noFormat := true }

/-- The text of a model without enumerations that includes what is given. -/
def includingText (includes : String) : String :=
  "\x7b\n  \"objects\": [],\n  \"includes\": " ++ includes ++ ",\n  \"enums\": \x7b\x7d,\n" ++
    "  \"has_enum\": false,\n  \"has_variant\": false,\n  \"helper_sources\": []\n\x7d"

/-- The first source asks for nothing, and the last one is handled as it was before the run. -/
theorem rewritten_source_isolated :
    let run := (CommandLine.Command.compile rewrittenBatch).run FileMap.host.recording
      (rewritten, [])
    run.state.2 =
      [.makeDirectories "out" none,
        .write "out/b.model.json" (includingText "[\n    \"<string>\"\n  ]") none,
        .makeDirectories "out" none,
        .write "out/b.model.model.json" (includingText "[]") none] ∧
    run.out = ByteArray.empty ∧ run.status = 1 ∧
    run.err =
      ("❌ failed in/a.json: failed to parse JSON source file (in/a.json): " ++
        "EOF while parsing a list\n✅ in/b.json\n✅ out/b.model.json\n" ++
        "error: 1 of 3 schema(s) failed\n").toUTF8 := by
  intro run
  have requests : run.state.2 =
      [.makeDirectories "out" none,
        .write "out/b.model.json" (includingText "[\n    \"<string>\"\n  ]") none,
        .makeDirectories "out" none,
        .write "out/b.model.model.json" (includingText "[]") none] := by decide +kernel
  obtain ⟨handled, handles, asked, out, -, status, err⟩ :=
    (batch_isolates_sources rewrittenBatch FileMap.host rewritten).2.2 {}
      [["in/a.json"], ["in/b.json"], ["out/b.model.json"]] rfl
      (.cons rfl (.cons rfl (.cons rfl .nil)))
  change List.Forall₂ _ ["in/a.json", "in/b.json", "out/b.model.json"] handled at handles
  rcases handles with _ | ⟨malformed, _ | ⟨first, _ | ⟨second, ⟨⟩⟩⟩⟩
  have unparsed : compileSource FileMap.host rewritten {} "in/a.json" =
      .error (.malformed "in/a.json" .endInList) := by decide +kernel
  have string : compileSource FileMap.host rewritten {} "in/b.json" =
      .ok ⟨[], ["<string>"], [], false, false, []⟩ := by decide +kernel
  have integer : compileSource FileMap.host rewritten {} "out/b.model.json" =
      .ok ⟨[], [], [], false, false, []⟩ := by decide +kernel
  obtain rfl := (handles_of_error unparsed).1 malformed
  obtain ⟨requests₁, out₁, err₁, reason₁, rfl, emits₁⟩ := (handles_of_ok string).1 first
  obtain ⟨requests₂, out₂, err₂, reason₂, rfl, emits₂⟩ := (handles_of_ok integer).1 second
  rw [asked] at requests
  simp only [Handling.failed, List.flatMap_cons, List.flatMap_nil, List.nil_append,
    List.append_nil] at requests
  cases emits₁ with
  | shown dash => exact absurd dash (by decide)
  | formatted command exit out₁ err₁ _ formats => exact absurd formats (by decide)
  | noDirectory e _ => simp at requests
  | unwritable e _ => simp at requests
  | unformatted =>
    cases emits₂ with
    | shown dash => exact absurd dash (by decide)
    | formatted command exit out₂ err₂ _ formats => exact absurd formats (by decide)
    | noDirectory e _ => simp at requests
    | unwritable e _ => simp at requests
    | unformatted =>
      rw [asked, out, status, err]
      exact ⟨requests, by decide +kernel, by decide +kernel, by decide +kernel⟩

/-- A file tree whose working directory holds a source, and a file where the output directory is to
be. -/
def obstructed : FileTree :=
  ⟨.directory [("w", .directory [("f", .file "text".toUTF8),
    ("x.json", .file "\x7b\"type\": \"string\"\x7d".toUTF8)])], ["w"]⟩

/-- A batch with this one source. -/
def obstructedBatch : Batch :=
  { inputs := ["x.json"], out := "f", noFormat := true }

/-- **A source with a model need not have a write attempted.**  The output directory cannot be made,
and the run ends with that: the file itself is never asked for. -/
theorem unmade_directory_prevents_write :
    let run := (CommandLine.Command.compile obstructedBatch).run FileTree.host.recording
      (obstructed, [])
    Settings.load FileTree.host obstructed obstructedBatch.settings = .ok {} ∧
    resolveInputs FileTree.host obstructed obstructedBatch.inputs = .ok ["x.json"] ∧
    obstructedBatch.out ≠ "-" ∧
    (∃ model, Compiles FileTree.host obstructed {} "x.json" model) ∧
    run.state.2 = [.makeDirectories "f" (some .fileExists)] ∧
    (∀ target text failure, .write target text failure ∉ run.state.2) ∧
    run.out = ByteArray.empty ∧ run.status = 1 ∧
    run.err =
      ("❌ failed x.json: failed to create output directory f: File exists (os error 17)\n" ++
        "error: 1 of 1 schema(s) failed\n").toUTF8 := by
  intro run
  have compiled : compileSource FileTree.host obstructed {} "x.json" =
      .ok ⟨[], ["<string>"], [], false, false, []⟩ := by decide +kernel
  have asked : run.state.2 = [.makeDirectories "f" (some .fileExists)] := by decide +kernel
  refine ⟨rfl, rfl, by decide, ⟨_, compileSource_eq_ok.1 compiled⟩, asked, ?_, ?_, ?_, ?_⟩
  · intro target text failure mem
    rw [asked] at mem
    simp at mem
  · decide +kernel
  · decide +kernel
  · decide +kernel

end SchemaModel
