import Mathlib
import SchemaModel.Batch.Run

/-!
# Hosts that map paths to texts

The simplest file system is a map from paths to texts, in which a write succeeds and changes one
path alone.  On such a host all that a batch writes can be listed beforehand, and what a path holds
after it is the last text written there, or what it held before.

* `Host.IsMap` — a host whose files are such a map, seen through the content of paths;
* `FileMap.host` — such a host with nothing else to it;
* `writtenOver` — a map after some writes, with `writtenOver_of_notMem` and `writtenOver_last`;
* `Batch.writings` — the writes of a batch;
* `Batch.finishAll_isMap` — the files after a batch, and the outcomes of its sources.
-/

namespace SchemaModel

variable {σ : Type}

/-- The files of a host are a map from paths to texts: making directories leaves it as it is, and a
write succeeds and changes one path. -/
structure Host.IsMap (host : Host σ) (content : σ → String → Option String) : Prop where
  readText (s : σ) (path : String) :
    host.readText s path = (content s path).elim (.error .noSuchFile) .ok
  makeDirectories (s : σ) (path : String) :
    ∃ made, host.makeDirectories s path = (made, none) ∧ content made = content s
  write (s : σ) (path text : String) :
    ∃ wrote, host.write s path text = (wrote, none) ∧
      content wrote = Function.update (content s) path (some text)

/-- A list of files under their paths as a host.  The file that is written last comes first; a
pattern with wildcards matches no file, and a formatter does nothing. -/
def FileMap.host : Host (List (String × String)) where
  hasEntry files path := (files.lookup path).isSome
  readText files path := (files.lookup path).elim (.error .noSuchFile) .ok
  expand _ _ := .ok []
  makeDirectories files _ := (files, none)
  write files path text := ((path, text) :: files, none)
  format files _ := ⟨files, ByteArray.empty, ByteArray.empty, .exited 0⟩

theorem FileMap.host_isMap : FileMap.host.IsMap fun files path => files.lookup path where
  readText _ _ := rfl
  makeDirectories files _ := ⟨files, rfl, rfl⟩
  write files path text := by
    refine ⟨_, rfl, funext fun other => ?_⟩
    by_cases same : other = path
    · rw [same, Function.update_self, List.lookup_cons_self]
    · rw [Function.update_of_ne same, List.lookup_cons, beq_false_of_ne same]

/-! ### Writes one after another -/

/-- A map of files after some writes. -/
def writtenOver (files : String → Option String) :
    List (String × String) → String → Option String
  | [] => files
  | (path, text) :: rest => writtenOver (Function.update files path (some text)) rest

/-- A path that is not written to keeps its text. -/
theorem writtenOver_of_notMem {files : String → Option String} {writes : List (String × String)}
    {path : String} (absent : path ∉ writes.map Prod.fst) :
    writtenOver files writes path = files path := by
  induction writes generalizing files with
  | nil => rfl
  | cons write rest ih =>
    rw [List.map_cons, List.mem_cons, not_or] at absent
    rw [writtenOver, ih absent.2, Function.update_of_ne absent.1]

theorem writtenOver_append (files : String → Option String)
    (before after : List (String × String)) :
    writtenOver files (before ++ after) = writtenOver (writtenOver files before) after := by
  induction before generalizing files with
  | nil => rfl
  | cons write rest ih => exact ih _

/-- A path holds the text that is written to it last. -/
theorem writtenOver_last (files : String → Option String) (before : List (String × String))
    {after : List (String × String)} {path : String} (text : String)
    (last : path ∉ after.map Prod.fst) :
    writtenOver files (before ++ (path, text) :: after) path = some text := by
  rw [writtenOver_append, writtenOver, writtenOver_of_notMem last, Function.update_self]

/-! ### The writes of a batch -/

namespace Batch

/-- The write that a compiled source comes to, if it has a model. -/
def writing? (b : Batch) (settings : Settings) (source : String × Except SourceError Model) :
    Option (String × String) :=
  source.2.toOption.map fun model =>
    (settings.outputPathFor source.1 b.out, model.toJson.indented)

/-- The writes of a batch, in order. -/
def writings (b : Batch) (settings : Settings)
    (sources : List (String × Except SourceError Model)) : List (String × String) :=
  sources.filterMap (b.writing? settings)

theorem writings_cons (b : Batch) (settings : Settings)
    (source : String × Except SourceError Model) (rest : List (String × Except SourceError Model)) :
    b.writings settings (source :: rest) =
      (b.writing? settings source).toList ++ b.writings settings rest := by
  rw [writings, List.filterMap_cons]
  cases b.writing? settings source <;> rfl

variable {b : Batch} {host : Host σ} {content : σ → String → Option String} {settings : Settings}

/-- A source whose model is written without a formatter changes one path, and succeeds. -/
theorem emit_isMap (map : host.IsMap content) (out : b.out ≠ "-")
    (unformatted : b.noFormat = true ∨ settings.formatterCommand = []) (p : Progress σ)
    (path : String) (model : Model) :
    ∃ wrote, b.emit host settings p path model = ({ p with state := wrote }, .ok ()) ∧
      content wrote = Function.update (content p.state) (settings.outputPathFor path b.out)
        (some model.toJson.indented) := by
  obtain ⟨made, hmade, kept⟩ := map.makeDirectories p.state b.out
  obtain ⟨wrote, hwrote, changed⟩ :=
    map.write made (settings.outputPathFor path b.out) model.toJson.indented
  refine ⟨wrote, ?_, by rw [changed, kept]⟩
  rw [emit_written out hmade hwrote]
  rcases unformatted with skip | noFormatter
  · rw [if_pos skip]
  · rw [Settings.formatterCommandFor, noFormatter]
    exact ite_self _

theorem finish_isMap (map : host.IsMap content) (out : b.out ≠ "-")
    (unformatted : b.noFormat = true ∨ settings.formatterCommand = []) (p : Progress σ)
    (source : String × Except SourceError Model) :
    (b.finish host settings p source.1 source.2).2 = source.2.map (fun _ => ()) ∧
      content (b.finish host settings p source.1 source.2).1.state =
        writtenOver (content p.state) (b.writing? settings source).toList := by
  obtain ⟨path, compiled⟩ := source
  cases compiled with
  | error e => exact ⟨rfl, rfl⟩
  | ok model =>
    obtain ⟨wrote, emitted, changed⟩ := emit_isMap map out unformatted p path model
    simp only [finish, emitted]
    exact ⟨rfl, changed⟩

/-- **The files after a batch, and its outcomes.**  Where nothing but the sources can fail, a source
ends as its compilation did. -/
theorem finishAll_isMap (map : host.IsMap content) (out : b.out ≠ "-")
    (unformatted : b.noFormat = true ∨ settings.formatterCommand = []) (p : Progress σ)
    (sources : List (String × Except SourceError Model)) :
    (b.finishAll host settings p sources).2 = sources.map (fun s => s.2.map fun _ => ()) ∧
      content (b.finishAll host settings p sources).1.state =
        writtenOver (content p.state) (b.writings settings sources) := by
  induction sources generalizing p with
  | nil => exact ⟨rfl, rfl⟩
  | cons source rest ih =>
    obtain ⟨outcome, changed⟩ := finish_isMap map out unformatted p source
    obtain ⟨outcomes, further⟩ := ih (b.finish host settings p source.1 source.2).1
    constructor
    · rw [finishAll, List.map_cons, ← outcome, ← outcomes]
    · rw [writings_cons, writtenOver_append, ← changed, ← further]
      rfl

end Batch

end SchemaModel
