import SchemaModel.Proofs.FileMaps
import SchemaModel.Proofs.Isolation
import SchemaModel.Proofs.OutputNames

/-!
# Which models a batch keeps

The name of a written model is made from the file name of its source alone.  So two sources in
different directories can share an output, and then the later one writes over the model of the
earlier one, although both have their lines of success.  On a host whose files are a map, the
batch keeps the model of every source exactly if sources with the same stem have the same model.

* `exists_last` — the last element of a list with some property;
* `forall_held_iff` — when every element of a list finds its own value under its key;
* `Batch.content_run` — the files after a batch;
* `Batch.content_run_of_last` — an output holds the model of the last source that has it;
* `models_kept_iff` — when no model is lost;
* `earlier_model_lost` — a batch that loses one.
-/

namespace SchemaModel

theorem exists_last {α : Type} {P : α → Prop} {xs : List α} (holds : ∃ x ∈ xs, P x) :
    ∃ before x after, xs = before ++ x :: after ∧ P x ∧ ∀ y ∈ after, ¬ P y := by
  induction xs with
  | nil =>
    obtain ⟨x, mem, -⟩ := holds
    cases mem
  | cons first rest ih =>
    by_cases later : ∃ x ∈ rest, P x
    · obtain ⟨before, x, after, rfl, hx, last⟩ := ih later
      exact ⟨first :: before, x, after, rfl, hx, last⟩
    · obtain ⟨x, mem, hx⟩ := holds
      have last : ∀ y ∈ rest, ¬ P y := fun y hy hp => later ⟨y, hy, hp⟩
      rcases List.mem_cons.1 mem with rfl | mem
      · exact ⟨[], x, rest, rfl, hx, last⟩
      · exact absurd hx (last x mem)

/-- Where a key holds the value of the last element that has it, every element finds its own value
under its key exactly if elements with the same key have the same value. -/
theorem forall_held_iff {α κ β : Type} {xs : List α} {key : α → κ} {value : α → β}
    {held : κ → Option β}
    (last : ∀ before x after, xs = before ++ x :: after → (∀ y ∈ after, key y ≠ key x) →
      held (key x) = some (value x)) :
    (∀ x ∈ xs, held (key x) = some (value x)) ↔
      ∀ x ∈ xs, ∀ y ∈ xs, key x = key y → value x = value y := by
  constructor
  · intro all x hx y hy same
    have first := all x hx
    rw [same, all y hy] at first
    exact (Option.some.inj first).symm
  · intro alike x hx
    obtain ⟨before, y, after, split, same, distinct⟩ :=
      exists_last (P := fun y => key y = key x) ⟨x, hx, rfl⟩
    have hy : y ∈ xs := by simp [split]
    rw [← same, alike x hx y hy same.symm]
    refine last before y after split fun z hz => ?_
    rw [same]
    exact distinct z hz

/-! ### The files after a batch -/

namespace Batch

variable {σ : Type}

theorem outcomes_of_verdict {outcomes : List (Except SourceError Unit)}
    (succeeds : verdict outcomes = .ok ()) : ∀ outcome ∈ outcomes, outcome = .ok () := by
  intro outcome mem
  have unfailed : outcomes.countP (fun outcome => !outcome.isOk) = 0 := by
    by_contra failed
    rw [verdict, if_neg failed] at succeeds
    cases succeeds
  have fine := List.countP_eq_zero.1 unfailed outcome mem
  cases outcome with
  | ok u => rfl
  | error e => exact absurd rfl fine

theorem mem_writings {b : Batch} {settings : Settings}
    {sources : List (String × Except SourceError Model)} {target : String}
    (mem : target ∈ (b.writings settings sources).map Prod.fst) :
    ∃ source ∈ sources, settings.outputPathFor source.1 b.out = target := by
  rw [List.mem_map] at mem
  obtain ⟨write, hwrite, same⟩ := mem
  rw [writings, List.mem_filterMap] at hwrite
  obtain ⟨source, hsource, wrote⟩ := hwrite
  rw [writing?, Option.map_eq_some_iff] at wrote
  obtain ⟨model, -, pair⟩ := wrote
  refine ⟨source, hsource, ?_⟩
  rw [← same, ← pair]

theorem writtenOver_writings_last {b : Batch} {settings : Settings} (files : String → Option String)
    (before : List (String × Except SourceError Model)) {path : String} {model : Model}
    {after : List (String × Except SourceError Model)}
    (last : ∀ source ∈ after,
      settings.outputPathFor source.1 b.out ≠ settings.outputPathFor path b.out) :
    writtenOver files (b.writings settings (before ++ (path, .ok model) :: after))
      (settings.outputPathFor path b.out) = some model.toJson.indented := by
  have absent : settings.outputPathFor path b.out ∉ (b.writings settings after).map Prod.fst := by
    intro mem
    obtain ⟨source, hsource, same⟩ := mem_writings mem
    exact last source hsource same
  have split : b.writings settings (before ++ (path, .ok model) :: after) =
      b.writings settings before ++
        (settings.outputPathFor path b.out, model.toJson.indented) ::
          b.writings settings after := by
    rw [writings, List.filterMap_append]
    rfl
  rw [split, writtenOver_last _ _ _ absent]

section Run

variable {b : Batch} {host : Host σ} {content : σ → String → Option String} {state : σ}
  {settings : Settings} {named : List (List String)} (map : host.IsMap content)
  (loaded : Settings.load host state b.settings = .ok settings)
  (each : List.Forall₂ (fun pattern paths => resolveInput host state pattern = .ok paths)
    b.inputs named)
  (out : b.out ≠ "-") (unformatted : b.noFormat = true ∨ settings.formatterCommand = [])
include map loaded each out unformatted

/-- The files after a batch are those before it with its writes over them. -/
theorem content_run :
    content (b.run host state).1.state =
      writtenOver (content state)
        (b.writings settings (compiledSources host state settings.options named.flatten)) := by
  rw [run_of_resolved loaded each]
  exact (finishAll_isMap map out unformatted { state } _).2

/-- A batch that succeeds has compiled all its sources. -/
theorem compiled_of_run (succeeds : (b.run host state).2 = .ok ()) {path : String}
    (mem : path ∈ named.flatten) :
    ∃ model, compileSource host state settings.options path = .ok model := by
  rw [run_of_resolved loaded each] at succeeds
  have fine := outcomes_of_verdict succeeds
    ((compileSource host state settings.options path).map fun _ => ())
  rw [(finishAll_isMap map out unformatted { state } _).1] at fine
  obtain ⟨model, compiled, -⟩ := Outcome.map_eq_ok.1
    (fine (List.mem_map.2 ⟨_, List.mem_map.2 ⟨path, mem, rfl⟩, rfl⟩))
  exact ⟨model, compiled⟩

/-- A path that is no output keeps its text. -/
theorem content_run_of_not_output {path : String}
    (apart : ∀ other ∈ named.flatten, path ≠ settings.outputPathFor other b.out) :
    content (b.run host state).1.state path = content state path := by
  rw [content_run map loaded each out unformatted]
  refine writtenOver_of_notMem fun written => ?_
  obtain ⟨source, hsource, same⟩ := mem_writings written
  obtain ⟨other, hother, rfl⟩ := List.mem_map.1 hsource
  exact apart other hother same.symm

/-- An output holds the model of the last source that has it. -/
theorem content_run_of_last {before later : List String} {path : String} {model : Model}
    (split : named.flatten = before ++ path :: later)
    (compiled : compileSource host state settings.options path = .ok model)
    (last : ∀ other ∈ later,
      settings.outputPathFor other b.out ≠ settings.outputPathFor path b.out) :
    content (b.run host state).1.state (settings.outputPathFor path b.out) =
      some model.toJson.indented := by
  have parted : compiledSources host state settings.options named.flatten =
      compiledSources host state settings.options before ++
        (path, .ok model) :: compiledSources host state settings.options later := by
    rw [split, compiledSources, List.map_append, List.map_cons, compiled]
    rfl
  rw [content_run map loaded each out unformatted, parted]
  refine writtenOver_writings_last _ _ fun source hsource => ?_
  obtain ⟨other, hother, rfl⟩ := List.mem_map.1 hsource
  exact last other hother

end Run

end Batch

open Batch

variable {σ : Type}

/-- **A batch that succeeds, with an output directory and without a formatter, keeps the models of
all its sources exactly if sources whose file names have the same stem have models with the same
text.**  All of them have models, before the batch as after it, and an output holds the model of the
last source with its stem. -/
theorem models_kept_iff {b : Batch} {host : Host σ} {content : σ → String → Option String}
    {state : σ} {settings : Settings} {named : List (List String)} (map : host.IsMap content)
    (loaded : Settings.load host state b.settings = .ok settings)
    (each : List.Forall₂ (fun pattern paths => resolveInput host state pattern = .ok paths)
      b.inputs named)
    (out : b.out ≠ "-") (unformatted : b.noFormat = true ∨ settings.formatterCommand = [])
    (apart : ∀ path ∈ named.flatten, ∀ other ∈ named.flatten,
      path ≠ settings.outputPathFor other b.out)
    (succeeds : ((CommandLine.Command.compile b).run host state).status = 0) :
    let after := ((CommandLine.Command.compile b).run host state).state
    ∃ model : String → Model,
      (∀ path ∈ named.flatten,
        compileSource host state settings.options path = .ok (model path) ∧
          compileSource host after settings.options path = .ok (model path)) ∧
      (∀ before path later, named.flatten = before ++ path :: later →
        (∀ other ∈ later, Settings.stemOf other ≠ Settings.stemOf path) →
        content after (settings.outputPathFor path b.out) =
          some (model path).toJson.indented) ∧
      ((∀ path ∈ named.flatten,
          content after (settings.outputPathFor path b.out) =
            some (model path).toJson.indented) ↔
        ∀ path ∈ named.flatten, ∀ other ∈ named.flatten,
          Settings.stemOf path = Settings.stemOf other →
          (model path).toJson.indented = (model other).toJson.indented) := by
  intro after
  have hafter : after = (b.run host state).1.state := CommandLine.Command.run_compile_state ..
  rw [CommandLine.Command.run_compile_status_eq_zero] at succeeds
  have compiled : ∀ path ∈ named.flatten,
      ∃ model, compileSource host state settings.options path = .ok model :=
    fun path mem => compiled_of_run map loaded each out unformatted succeeds mem
  have : Nonempty Model := ⟨⟨[], [], [], false, false, []⟩⟩
  choose! model hmodel using compiled
  have kept : ∀ path ∈ named.flatten,
      compileSource host after settings.options path = .ok (model path) := by
    intro path mem
    have untouched : content after path = content state path := by
      rw [hafter]
      exact content_run_of_not_output map loaded each out unformatted (apart path mem)
    rw [← hmodel path mem, compileSource, compileSource, map.readText, map.readText, untouched]
  have last : ∀ before path later, named.flatten = before ++ path :: later →
      (∀ other ∈ later,
        settings.outputPathFor other b.out ≠ settings.outputPathFor path b.out) →
      content after (settings.outputPathFor path b.out) =
        some (model path).toJson.indented := by
    intro before path later split distinct
    have mem : path ∈ named.flatten := by simp [split]
    rw [hafter]
    exact content_run_of_last map loaded each out unformatted split (hmodel path mem) distinct
  have all := forall_held_iff last
  simp only [ne_eq, Settings.outputPathFor_eq_iff] at last all
  exact ⟨model, fun path mem => ⟨hmodel path mem, kept path mem⟩, last, all⟩

/-- Two schemas of one file name in different directories. -/
def sameNamed : List (String × String) :=
  [("a/x.json", "\x7b\"type\": \"string\"\x7d"), ("b/x.json", "\x7b\"type\": \"integer\"\x7d")]

/-- A batch over both of them. -/
def sameNamedBatch : Batch := { inputs := ["a/x.json", "b/x.json"], noFormat := true }

/-- The output that both of them have holds the model of the later one. -/
theorem later_model_kept :
    ∃ model, compileSource FileMap.host sameNamed (Settings.options {}) "b/x.json" = .ok model ∧
      ((CommandLine.Command.compile sameNamedBatch).run FileMap.host sameNamed).state.lookup
        "out/x.model.json" = some model.toJson.indented := by
  have loaded : Settings.load FileMap.host sameNamed sameNamedBatch.settings = .ok {} := rfl
  have each : List.Forall₂
      (fun pattern paths => resolveInput FileMap.host sameNamed pattern = .ok paths)
      sameNamedBatch.inputs [["a/x.json"], ["b/x.json"]] :=
    .cons rfl (.cons rfl .nil)
  have succeeds :
      ((CommandLine.Command.compile sameNamedBatch).run FileMap.host sameNamed).status = 0 := by
    decide +kernel
  obtain ⟨model, compiled, last, -⟩ := models_kept_iff FileMap.host_isMap loaded each (by decide)
    (.inl rfl) (by decide) succeeds
  exact ⟨model "b/x.json", (compiled "b/x.json" (by decide)).1,
    last ["a/x.json"] "b/x.json" [] rfl (by simp)⟩

/-- Both of them are compiled, and the batch succeeds, but the model of the earlier one is lost. -/
theorem earlier_model_lost :
    let host := FileMap.host
    let run := (CommandLine.Command.compile sameNamedBatch).run host sameNamed
    host.IsMap (fun files path => files.lookup path) ∧
    Settings.load host sameNamed sameNamedBatch.settings = .ok {} ∧
    resolveInputs host sameNamed sameNamedBatch.inputs = .ok ["a/x.json", "b/x.json"] ∧
    sameNamedBatch.out ≠ "-" ∧ sameNamedBatch.noFormat = true ∧
    ["a/x.json", "b/x.json"].Nodup ∧
    (∀ path ∈ ["a/x.json", "b/x.json"], ∀ other ∈ ["a/x.json", "b/x.json"],
      path ≠ Settings.outputPathFor {} other sameNamedBatch.out) ∧
    run.status = 0 ∧
    ∃ model, compileSource host sameNamed (Settings.options {}) "a/x.json" = .ok model ∧
      run.state.lookup (Settings.outputPathFor {} "a/x.json" sameNamedBatch.out) ≠
        some model.toJson.indented := by
  exact ⟨FileMap.host_isMap, rfl, rfl, by decide, rfl, by decide, by decide, by decide +kernel,
    ⟨[], ["<string>"], [], false, false, []⟩, by decide +kernel, by decide +kernel⟩

end SchemaModel
