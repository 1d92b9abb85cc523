import SchemaModel.Proofs.Enumerations
import SchemaModel.Proofs.IndentedTexts

/-!
# The text of a model

A model is written as one object with six members.  Nothing in it is lost: models with the same JSON
are the same, and the text that is written reads back as this JSON.

* `Field.WrittenAs`, `Definition.WrittenAs`, `Model.WrittenAs` — the JSON of the parts of a model;
* `Model.writtenAs_iff` — it is what is written for the model;
* `Model.WrittenAs.unique` — the model can be told from it;
* `Model.parse_text` — the text of a model that has been compiled reads back;
* `Model.eq_of_same_text` — and tells the model.
-/

namespace SchemaModel

open Json

/-! ### The JSON of a model -/

/-- The JSON of a field. -/
def Field.WrittenAs (f : Field) (v : Json) : Prop :=
  v = .object [("name", .string f.name), ("ty", .string f.type),
    ("default",
      match f.default with
      | some literal => .string literal
      | none => .null)]

/-- The JSON of a definition. -/
def Definition.WrittenAs (d : Definition) (v : Json) : Prop :=
  ∃ fields, List.Forall₂ Field.WrittenAs d.fields fields ∧
    v = .object [("name", .string d.name), ("path", .string d.path), ("fields", .array fields),
      ("declared_absent", .array (d.declaredAbsent.map .string))]

/-- The JSON of a model. -/
def Model.WrittenAs (m : Model) (v : Json) : Prop :=
  ∃ objects, List.Forall₂ Definition.WrittenAs m.objects objects ∧
    v = .object [("objects", .array objects), ("includes", .array (m.includes.map .string)),
      ("enums", .object (m.enums.map fun e => (e.1, .array (e.2.map .string)))),
      ("has_enum", .bool m.hasEnum), ("has_variant", .bool m.hasVariant),
      ("helper_sources", .array (m.helperSources.map .string))]

theorem Field.writtenAs_iff (f : Field) {v : Json} : f.WrittenAs v ↔ v = Model.fieldJson f := by
  rw [WrittenAs, Model.fieldJson]
  cases f.default <;> rfl

theorem Definition.writtenAs_iff (d : Definition) {v : Json} :
    d.WrittenAs v ↔ v = Model.definitionJson d := by
  have fields : ∀ vs, List.Forall₂ Field.WrittenAs d.fields vs ↔
      vs = d.fields.map Model.fieldJson :=
    fun _ => forall₂_iff_eq_map fun f _ => f.writtenAs_iff
  simp only [WrittenAs, fields, exists_eq_left, Model.definitionJson]

/-- The JSON of a model is the value that is written for it. -/
theorem Model.writtenAs_iff (m : Model) {v : Json} : m.WrittenAs v ↔ v = m.toJson := by
  have objects : ∀ vs, List.Forall₂ Definition.WrittenAs m.objects vs ↔
      vs = m.objects.map definitionJson :=
    fun _ => forall₂_iff_eq_map fun d _ => d.writtenAs_iff
  simp only [WrittenAs, objects, exists_eq_left, toJson]

/-! ### One model for a JSON value -/

theorem map_string_injective : Function.Injective (List.map Json.string) :=
  List.map_injective_iff.2 fun _ _ same => Json.string.inj same

theorem Field.WrittenAs.unique {f g : Field} {v : Json} (h : f.WrittenAs v) (h' : g.WrittenAs v) :
    f = g := by
  obtain ⟨name, type, default⟩ := f
  obtain ⟨name', type', default'⟩ := g
  have same := h.symm.trans h'
  simp only [Json.object.injEq, List.cons.injEq, Prod.mk.injEq, Json.string.injEq, true_and,
    and_true] at same
  obtain ⟨rfl, rfl, same⟩ := same
  cases default <;> cases default' <;> simp_all

theorem Definition.WrittenAs.unique {d e : Definition} {v : Json} (h : d.WrittenAs v)
    (h' : e.WrittenAs v) : d = e := by
  obtain ⟨fields, each, rfl⟩ := h
  obtain ⟨fields', each', same⟩ := h'
  obtain ⟨name, path, own, absent⟩ := d
  obtain ⟨name', path', own', absent'⟩ := e
  simp only [Json.object.injEq, List.cons.injEq, Prod.mk.injEq, Json.string.injEq,
    Json.array.injEq, true_and, and_true] at same
  obtain ⟨rfl, rfl, rfl, absents⟩ := same
  obtain rfl := map_string_injective absents
  have unique : Relator.LeftUnique Field.WrittenAs := fun _ _ _ => Field.WrittenAs.unique
  obtain rfl := List.left_unique_forall₂' unique each each'
  rfl

/-- **Models with the same JSON are the same.** -/
theorem Model.WrittenAs.unique {m m' : Model} {v : Json} (h : m.WrittenAs v)
    (h' : m'.WrittenAs v) : m = m' := by
  obtain ⟨objects, each, rfl⟩ := h
  obtain ⟨objects', each', same⟩ := h'
  obtain ⟨own, includes, enums, hasEnum, hasVariant, sources⟩ := m
  obtain ⟨own', includes', enums', hasEnum', hasVariant', sources'⟩ := m'
  have entries : Function.Injective fun e : String × List String =>
      (e.1, Json.array (e.2.map .string)) := by
    rintro ⟨d, values⟩ ⟨d', values'⟩ equal
    obtain ⟨rfl, lists⟩ := Prod.mk.inj equal
    obtain rfl := map_string_injective (Json.array.inj lists)
    rfl
  simp only [Json.object.injEq, List.cons.injEq, Prod.mk.injEq, Json.array.injEq,
    Json.bool.injEq, true_and, and_true] at same
  obtain ⟨rfl, included, listed, rfl, rfl, supported⟩ := same
  obtain rfl := map_string_injective included
  obtain rfl := List.map_injective_iff.2 entries listed
  obtain rfl := map_string_injective supported
  have unique : Relator.LeftUnique Definition.WrittenAs := fun _ _ _ => Definition.WrittenAs.unique
  obtain rfl := List.left_unique_forall₂' unique each each'
  rfl

/-! ### The text of a model -/

namespace Json

/-- No object repeats a key, and all numbers are integers of 64 bits. -/
structure IsReadable (v : Json) : Prop where
  distinct : v.HasDistinctKeys
  short : v.HasShortNumbers

theorem isReadable_of_parts {v : Json} (noNumber : ∀ n, v ≠ .number n)
    (nodup : ∀ members, v = .object members → (members.map Prod.fst).Nodup)
    (parts : ∀ u, v.Part u → u.IsReadable) : v.IsReadable := by
  constructor
  · cases v with
    | array items => exact itemsHaveDistinctKeys_iff.2 fun u mem => (parts u mem).distinct
    | object members =>
      refine ⟨nodup members rfl, membersHaveDistinctKeys_iff.2 fun m mem => ?_⟩
      exact (parts m.2 ⟨m.1, mem⟩).distinct
    | _ => trivial
  · intro k n inside
    cases inside with
    | here => exact absurd rfl (noNumber n)
    | deeper part inside => exact (parts _ part).short _ n inside

theorem isReadable_string (s : String) : (string s).IsReadable :=
  isReadable_of_parts nofun nofun fun _ part => part.elim

theorem isReadable_array {items : List Json} (each : ∀ v ∈ items, v.IsReadable) :
    (array items).IsReadable :=
  isReadable_of_parts nofun nofun each

theorem isReadable_object {members : List (String × Json)} (nodup : (members.map Prod.fst).Nodup)
    (each : ∀ m ∈ members, m.2.IsReadable) : (object members).IsReadable := by
  refine isReadable_of_parts nofun ?_ fun u ⟨key, mem⟩ => each (key, u) mem
  rintro _ ⟨⟩
  exact nodup

theorem isReadable_strings (ss : List String) : (array (ss.map string)).IsReadable := by
  refine isReadable_array fun v mem => ?_
  obtain ⟨s, -, rfl⟩ := List.mem_map.1 mem
  exact isReadable_string s

end Json

theorem Field.isReadable_fieldJson (f : Field) : (Model.fieldJson f).IsReadable := by
  have default : ((f.default.map Json.string).getD .null).IsReadable := by
    cases f.default with
    | some literal => exact isReadable_string literal
    | none => exact isReadable_of_parts nofun nofun fun _ part => part.elim
  refine isReadable_object (by simp) ?_
  simp only [List.forall_mem_cons]
  exact ⟨isReadable_string _, isReadable_string _, default, List.forall_mem_nil _⟩

theorem Definition.isReadable_definitionJson (d : Definition) :
    (Model.definitionJson d).IsReadable := by
  have fields : (array (d.fields.map Model.fieldJson)).IsReadable := by
    refine isReadable_array fun v mem => ?_
    obtain ⟨f, -, rfl⟩ := List.mem_map.1 mem
    exact f.isReadable_fieldJson
  refine isReadable_object (by simp) ?_
  simp only [List.forall_mem_cons]
  exact ⟨isReadable_string _, isReadable_string _, fields, isReadable_strings _,
    List.forall_mem_nil _⟩

theorem Model.isReadable_toJson {m : Model} (distinct : m.enums.keys.Nodup) :
    m.toJson.IsReadable := by
  have objects : (array (m.objects.map definitionJson)).IsReadable := by
    refine isReadable_array fun v mem => ?_
    obtain ⟨d, -, rfl⟩ := List.mem_map.1 mem
    exact d.isReadable_definitionJson
  have enums : (object (m.enums.map fun e => (e.1, array (e.2.map string)))).IsReadable := by
    refine isReadable_object ?_ fun member mem => ?_
    · rw [List.map_map]
      exact distinct
    · obtain ⟨e, -, rfl⟩ := List.mem_map.1 mem
      exact isReadable_strings e.2
  have flag : ∀ b, (bool b).IsReadable := fun b =>
    isReadable_of_parts nofun nofun fun _ part => part.elim
  refine isReadable_object (by simp) ?_
  simp only [List.forall_mem_cons]
  exact ⟨objects, isReadable_strings _, enums, flag _, flag _, isReadable_strings _,
    List.forall_mem_nil _⟩

theorem Model.enums_nodup {options : Options} {validator : Validator} {document : Json} {m : Model}
    (compiled : compile options validator document = .ok m) : m.enums.keys.Nodup := by
  obtain ⟨-, -, root, -, compiled⟩ := compile_eq_ok.1 compiled
  obtain ⟨r, objects, resolved, -, rfl⟩ := Schema.compile_eq_ok.1 compiled
  have empty : (Table.keys ([] : Table (List String))).Nodup := List.nodup_nil
  show (Table.keys r.findings.enums).Nodup
  rw [Resolution.enums_eq resolved]
  exact Table.keys_putAll_nodup empty _

/-- **The text of a model that has been compiled reads back** as the JSON of the model. -/
theorem Model.parse_text {options : Options} {validator : Validator} {document : Json} {m : Model}
    (compiled : compile options validator document = .ok m) :
    parse none m.toJson.indented = .ok m.toJson := by
  obtain ⟨distinct, short⟩ := Model.isReadable_toJson (Model.enums_nodup compiled)
  exact parse_indented distinct short

/-- **Models that have been compiled are the same if their texts are**, whatever the options. -/
theorem Model.eq_of_same_text {options options' : Options} {validator : Validator}
    {document document' : Json} {m m' : Model}
    (compiled : compile options validator document = .ok m)
    (compiled' : compile options' validator document' = .ok m')
    (same : m.toJson.indented = m'.toJson.indented) : m = m' := by
  have reads := Model.parse_text compiled'
  rw [← same, Model.parse_text compiled] at reads
  have written : m'.WrittenAs m.toJson := m'.writtenAs_iff.2 (Except.ok.inj reads)
  exact (m.writtenAs_iff.2 rfl).unique written

end SchemaModel
