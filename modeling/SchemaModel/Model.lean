import SchemaModel.Definition
import SchemaModel.MetaSchema.Violation
import SchemaModel.Schema.OfJson

/-!
# Models

The model of a document is what an emitter needs: the definitions, the include directives, the
enumerations, and the support sources.  A document is compiled in four steps, and each failure
ends the compilation: its nesting is checked, then its grammar, then it is read as schema nodes,
and these are resolved and searched for definitions.

* `Model` — the result;
* `Schema.compile` — the model of schema nodes;
* `compile` — the model of a document.
-/

namespace SchemaModel

/-- What an emitter needs; definitions come before those that use them, and include directives
are in ascending order. -/
structure Model where
  objects : List Definition
  includes : List String
  enums : Table (List String)
  hasEnum : Bool
  hasVariant : Bool
  helperSources : List String
deriving DecidableEq, Repr

namespace Model

/-- The support sources that findings call for. -/
def sourcesFor (helpers : Helpers) (f : Findings) : List String :=
  (if f.hasEnum then [helpers.enumSource] else []) ++
    (if f.hasVariant then [helpers.variantSource] else [])

/-- The first definition with a name. -/
def object? (m : Model) (name : String) : Option Definition := m.objects.find? (·.name == name)

/-- A field as JSON. -/
def fieldJson (f : Field) : Json :=
  .object [("name", .string f.name), ("ty", .string f.type),
    ("default", (f.default.map Json.string).getD .null)]

/-- A definition as JSON. -/
def definitionJson (d : Definition) : Json :=
  .object [("name", .string d.name), ("path", .string d.path),
    ("fields", .array (d.fields.map fieldJson)),
    ("declared_absent", .array (d.declaredAbsent.map .string))]

/-- A model as JSON. -/
def toJson (m : Model) : Json :=
  .object [("objects", .array (m.objects.map definitionJson)),
    ("includes", .array (m.includes.map .string)),
    ("enums", .object (m.enums.map fun e => (e.1, .array (e.2.map .string)))),
    ("has_enum", .bool m.hasEnum), ("has_variant", .bool m.hasVariant),
    ("helper_sources", .array (m.helperSources.map .string))]

end Model

/-- The model of schema nodes. -/
def Schema.compile (options : Options) (root : Schema) : Except CompileError Model := do
  let resolution ← root.resolve options
  let objects ← resolution.root.definitions
  let f := resolution.findings
  return {
    objects
    includes := f.includes
    enums := f.enums
    hasEnum := f.hasEnum
    hasVariant := f.hasVariant
    helperSources := Model.sourcesFor options.helpers f }

/-- The schema nodes of a document. -/
def readDocument (document : Json) : Except CompileError Schema :=
  (Schema.ofJson document).mapError fun e => .schemaFormat e.message

/-- The model of a document. -/
def compile (options : Options) (validator : Validator) (document : Json) :
    Except CompileError Model := do
  Nesting.check document
  (validator document).mapError .schemaFormat
  (← readDocument document).compile options

end SchemaModel
