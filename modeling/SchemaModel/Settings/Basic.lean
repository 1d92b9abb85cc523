import SchemaModel.DecodeError
import SchemaModel.Options
import SchemaModel.PathName

/-!
# Settings

Settings carry the overrides of both tables, the names of the support sources, the formatter
command and the extension of written models.  Every one of them may be absent.

* `Settings` — the settings;
* `Settings.options` — the options of a compilation;
* `Settings.formatterCommandFor` — the formatter command for a file;
* `Settings.outputPathFor` — where the model of a schema is written;
* `Settings.ofJson`, `Settings.toJson` — settings as JSON.
-/

namespace SchemaModel

/-- The settings of a run. -/
structure Settings where
  formatterCommand : List String := []
  spellings : Table String := []
  includes : Table String := []
  enumSource : Option String := none
  variantSource : Option String := none
  outputExtension : Option String := none
deriving DecidableEq, Repr

namespace Settings

/-- The options of a compilation. -/
def options (s : Settings) : Options :=
  let defaults : Helpers := {}
  { spellings := Spellings.overridden s.spellings
    includes := Includes.overridden s.includes
    helpers := {
      enumSource := s.enumSource.getD defaults.enumSource
      variantSource := s.variantSource.getD defaults.variantSource } }

/-- The extension of written models. -/
def extension (s : Settings) : String := s.outputExtension.getD "model.json"

/-- The formatter command with every placeholder replaced by a file; empty without a formatter. -/
def formatterCommandFor (s : Settings) (file : String) : List String :=
  s.formatterCommand.map (Text.replace "%file%" file)

/-- The name of a schema file up to its last `.json`, or all of it without one. -/
def stem (fileName : String) : String :=
  match Text.beforeLast? ".json".toList fileName.toList with
  | some before => String.ofList before
  | none => fileName

/-- Where the model of a schema is written. -/
def outputPathFor (s : Settings) (schemaPath outputDirectory : String) : String :=
  PathName.join outputDirectory
    (stem ((PathName.fileName? schemaPath).getD "") ++ "." ++ s.extension)

/-! ### Settings as JSON -/

/-- The keys of the settings. -/
inductive Key where
  | formatterCommand
  | spellings
  | includes
  | enumSource
  | variantSource
  | outputExtension
deriving DecidableEq, Repr

namespace Key

/-- The keys in the order of settings written as an array. -/
def all : List Key :=
  [.formatterCommand, .spellings, .includes, .enumSource, .variantSource, .outputExtension]

/-- The written form of a key. -/
def name : Key → String
  | .formatterCommand => "formatter_cmd"
  | .spellings => "type_map"
  | .includes => "include_map"
  | .enumSource => "enum_helper"
  | .variantSource => "variant_helper"
  | .outputExtension => "output_extension"

/-- The key with a written form. -/
def ofName? (s : String) : Option Key := all.find? (·.name == s)

theorem ofName?_name (k : Key) : ofName? k.name = some k := by cases k <;> rfl

end Key

/-- The settings read so far. -/
structure Draft where
  settings : Settings := {}
  given : List Key := []

/-- Reads a value into the settings. -/
def Draft.fill (d : Draft) (key : Key) (v : Json) : Except DecodeError Draft :=
  let done (s : Settings) : Draft := ⟨s, key :: d.given⟩
  let s := d.settings
  match key with
  | .formatterCommand => (Decode.strings v).map fun x => done { s with formatterCommand := x }
  | .spellings => (Decode.stringTable v).map fun x => done { s with spellings := x }
  | .includes => (Decode.stringTable v).map fun x => done { s with includes := x }
  | .enumSource =>
    (Decode.optional Decode.string v).map fun x => done { s with enumSource := x }
  | .variantSource =>
    (Decode.optional Decode.string v).map fun x => done { s with variantSource := x }
  | .outputExtension =>
    (Decode.optional Decode.string v).map fun x => done { s with outputExtension := x }

/-- Reads the members of an object; unknown ones are passed over. -/
def fillMembers (d : Draft) : List (String × Json) → Except DecodeError Draft
  | [] => .ok d
  | (name, v) :: rest =>
    match Key.ofName? name with
    | none => fillMembers d rest
    | some key =>
      if key ∈ d.given then .error (.here (.duplicateField name))
      else
        match Decode.at_ (.key name) (d.fill key v) with
        | .error e => .error e
        | .ok d => fillMembers d rest

/-- Reads the elements of an array, in the order of the keys from an index on. -/
def fillElements (d : Draft) (i : Nat) : List Json → Except DecodeError Draft
  | [] => .ok d
  | v :: rest =>
    match Key.all[i]? with
    | none => .ok d
    | some key =>
      match Decode.at_ (.index i) (d.fill key v) with
      | .error e => .error e
      | .ok d => fillElements d (i + 1) rest

/-- The settings that a value describes: an object, or an array of the values in order. -/
def ofJson : Json → Except DecodeError Settings
  | .object members => (fillMembers {} members).map (·.settings)
  | .array items => do
    let d ← fillElements {} 0 items
    if Key.all.length < items.length then .error (.here (.tooManyElements items.length))
    else .ok d.settings
  | v => .error (.unexpected v .settings)

/-- A table of strings as JSON. -/
def tableJson (t : Table String) : Json := .object (t.map fun e => (e.1, .string e.2))

/-- An absent text is null. -/
def optionalJson (s : Option String) : Json := (s.map Json.string).getD .null

/-- The settings as JSON, every key present. -/
def toJson (s : Settings) : Json :=
  .object [(Key.formatterCommand.name, .array (s.formatterCommand.map .string)),
    (Key.spellings.name, tableJson s.spellings), (Key.includes.name, tableJson s.includes),
    (Key.enumSource.name, optionalJson s.enumSource),
    (Key.variantSource.name, optionalJson s.variantSource),
    (Key.outputExtension.name, optionalJson s.outputExtension)]

end Settings

end SchemaModel
