import SchemaModel.Model
import SchemaModel.Proofs.Acceptance
import SchemaModel.Proofs.Definitions
import SchemaModel.Proofs.Failures

/-!
# Reported places are the true ones

The resolver and the search for definitions build the places they report separately and in
different orders.  An error is that of the node itself or that of a child one branch further; so by
induction it belongs to the node at the end of the walk that its place spells out.  A definition is
that of a node that the search emits, at the end of the walk to it.

* `CompileError.Blames` — what an error says of the node it is about;
* `Schema.exists_blamed_of_resolve_error`, `Typed.IsFormOf.exists_blamed_of_visit_error` — there is
  a node at the place of an error, and it is as the error says;
* `Definition.exists_source_of_mem_visit` — there is a node at the place of a definition;
* `Json.follow?_along` — in the document, the place of a node leads to the node;
* `reported_places_true` — all of this for compilations.
-/

namespace SchemaModel

open Outcome

/-! ### What an error says -/

/-- What an error says holds of the node at a place and a depth. -/
def CompileError.Blames (spellings : Spellings) (l : Location) (depth : Nat) (n : Schema) :
    CompileError → Prop
  | .schemaFormat _ => False
  | .unknownType place name =>
    place = l ∧ n.targetType = none ∧
      (n.type = .name name ∨ ∃ names, n.type = .choice names ∧ name ∈ names) ∧
      spellings.get? name = none
  | .invalidFieldList place property declared =>
    place = l ∧ n.isObject = true ∧ n.declaredFields = some declared ∧ declared ≠ [] ∧
      property ∈ n.properties.map Prod.fst ∧ property ∉ declared
  | .unsupportedLiteral place literal =>
    place = l ∧ ∃ v, n.default = some v ∧ v.toLiteral = .error literal
  | .nestingTooDeep place limit =>
    place = l ∧ limit = Nesting.maxNodeDepth ∧ depth = Nesting.maxNodeDepth + 1

/-! ### Errors and their nodes -/

/-- **An error of the resolver is about the node at its place.** -/
theorem Schema.exists_blamed_of_resolve_error {options : Options}
    (covers : options.spellings.CoversGenerics) {root : Schema} {e : CompileError}
    (h : root.resolve options = .error e) :
    ∃ bs n, Walk Schema.UsedChild root bs n ∧
      e.Blames options.spellings (Location.root.along bs) bs.length n := by
  obtain ⟨bs, n, walk, ⟨deep, rfl⟩ | ⟨items, prefixItems, oneOf, -, undescribed⟩⟩ :=
    exists_origin_of_resolve_error h
  · exact ⟨bs, n, walk, rfl, rfl, deep⟩
  · obtain ⟨untargeted, name, rfl, unspelled⟩ := Typed.describe_eq_error undescribed
    obtain ⟨absent, plain | choice⟩ := Shape.descriptor_eq_error covers unspelled
    · exact ⟨bs, n, walk, rfl, untargeted, .inl (Shape.type_of_plain plain), absent⟩
    · obtain ⟨names, choice, mem⟩ := choice
      exact ⟨bs, n, walk, rfl, untargeted, .inr ⟨names, Shape.type_of_choice choice, mem⟩, absent⟩

/-- **An error of the search for definitions is about the node at its place.** -/
theorem Typed.IsFormOf.exists_blamed_of_visit_error {options : Options} {t : Typed} {s : Schema}
    (form : t.IsFormOf options s) {l : Location} {e : CompileError}
    (h : Definition.visit l t = .error e) (spellings : Spellings) :
    ∃ bs n, Walk Schema.UsedChild s bs n ∧ ∀ depth, e.Blames spellings (l.along bs) depth n := by
  induction t using Typed.induction generalizing s l with
  | step t ih =>
    obtain rfl := form.schema_eq
    rcases Definition.visit_eq_error h with own | below | own
    · obtain ⟨v, literal, hv, failed, rfl⟩ := own
      exact ⟨[], t.schema, .here _, fun _ => ⟨l.along_nil.symm, v, hv, failed⟩⟩
    · obtain ⟨b, c, child, failed⟩ := below
      obtain ⟨n, child', form'⟩ := form.child child
      obtain ⟨bs, m, walk, blamed⟩ := ih b c child form' failed
      refine ⟨b :: bs, m, .down child' walk, fun depth => ?_⟩
      rw [Location.along_cons]
      exact blamed depth
    · obtain ⟨name, declared, object, declares, nonempty, mem, undeclared, rfl⟩ := own
      have names : t.properties.map Prod.fst = t.schema.properties.map Prod.fst := by
        rw [← Typed.schemas_of_namedForms form.forms.properties, List.map_map]
        rfl
      rw [names] at mem
      exact ⟨[], t.schema, .here _, fun _ =>
        ⟨l.along_nil.symm, object, declares, nonempty, mem, undeclared⟩⟩

/-! ### Where a definition comes from -/

namespace Definition

/-- **A definition names the node at its place**, and that node is an object with declared
fields. -/
theorem exists_source_of_mem_visit {l : Location} {d : Definition} {t : Typed} {v : Visit}
    (h : visit l t = .ok v) (mem : d ∈ v.definitions) :
    ∃ bs u, Walk Typed.Child t bs u ∧ d.path = (l.along bs).text ∧ d.name = u.descriptor ∧
      u.schema.isObject = true ∧
      ∃ declared, u.schema.declaredFields = some declared ∧ declared ≠ [] := by
  obtain ⟨-, rfl⟩ := (visit_eq_ok t l v).1 h
  obtain ⟨⟨bs, u⟩, emitted, rfl⟩ := List.mem_map.1 mem
  obtain ⟨walk, defined⟩ := Typed.mem_emitted.1 emitted
  exact ⟨bs, u, walk.mono Typed.Visits.child, rfl, rfl, Typed.isDefined_iff.1 defined⟩

end Definition

/-! ### Following a place into a document -/

namespace Json

/-- The value one step inside. -/
def step? : Json → Location.Step → Option Json
  | .object members, .key name => members.lookup name
  | .array items, .index i => items[i]?
  | _, _ => none

/-- The value that steps lead to. -/
def follow? (v : Json) : List Location.Step → Option Json
  | [] => some v
  | s :: rest => (v.step? s).bind (·.follow? rest)

theorem follow?_append (v : Json) (steps rest : List Location.Step) :
    v.follow? (steps ++ rest) = (v.follow? steps).bind (·.follow? rest) := by
  induction steps generalizing v with
  | nil => rfl
  | cons s steps ih =>
    rw [List.cons_append, follow?, follow?]
    cases v.step? s with
    | none => rfl
    | some u => exact ih u

/-- In a document that repeats no key, the steps of a branch lead to its child node only. -/
theorem Child.follow?_steps {v w : Json} {b : Branch} (distinct : v.HasDistinctKeys)
    (child : v.Child b w) : v.follow? b.steps = some w := by
  cases v with
  | object members =>
    obtain ⟨u, mem, finds⟩ := Json.child_iff_finds.1 child
    have first : (Json.object members).step? (.key b.slot.key) = some u :=
      lookup_of_mem distinct.1 mem
    rw [Branch.steps_eq, follow?, first]
    cases b with
    | items => exact congrArg some finds
    | property name =>
      obtain ⟨nodes, rfl, mem'⟩ := finds
      have below : (Json.object nodes).HasDistinctKeys :=
        distinct.inside (.deeper ⟨_, mem⟩ (.here _))
      show (nodes.lookup name).bind some = some w
      rw [lookup_of_mem below.1 mem']
      rfl
    | _ =>
      obtain ⟨nodes, rfl, hi⟩ := finds
      show (nodes[_]?).bind some = some w
      rw [hi]
      rfl
  | _ => exact child.elim

/-- **The place of a node leads to the node.** -/
theorem follow?_along {v w : Json} {bs : List Branch} (distinct : v.HasDistinctKeys)
    (walk : Walk Json.Child v bs w) : v.follow? (Location.root.along bs).steps = some w := by
  induction walk with
  | here v => rfl
  | down child _ ih =>
    rw [Location.steps_along_cons, follow?_append, child.follow?_steps distinct]
    exact ih (distinct.child child)

end Json

/-! ### Compilations -/

/-- **An error of a compilation is about the node at its place.** -/
theorem Schema.exists_blamed_of_compile_error {options : Options}
    (covers : options.spellings.CoversGenerics) {root : Schema} {e : CompileError}
    (h : root.compile options = .error e) :
    ∃ bs n, Walk Schema.UsedChild root bs n ∧
      e.Blames options.spellings (Location.root.along bs) bs.length n := by
  rcases bind_eq_error.1 h with unresolved | ⟨r, resolved, h⟩
  · exact exists_blamed_of_resolve_error covers unresolved
  · rcases bind_eq_error.1 h with failed | ⟨_, -, done⟩
    · obtain ⟨bs, n, walk, blamed⟩ := (Resolution.isFormOf resolved).exists_blamed_of_visit_error
        (map_eq_error.1 failed) options.spellings
      exact ⟨bs, n, walk, blamed _⟩
    · cases done

/-- **Every reported place is the true one.**  With spellings that override the defaults, an error
of a compilation is about the node at its place, and a definition is that of the node at its place;
in an accepted document that repeats no key, the same place leads to the object of the node. -/
theorem reported_places_true (overrides : List (String × String)) (includes : Includes)
    (helpers : Helpers) (root : Schema) :
    let options : Options := ⟨Spellings.overridden overrides, includes, helpers⟩
    (∀ e, root.compile options = .error e →
      ∃ bs n, Walk Schema.Child root bs n ∧
        e.Blames options.spellings (Location.root.along bs) bs.length n) ∧
    (∀ m, root.compile options = .ok m → ∀ d ∈ m.objects,
      ∃ r bs u, root.resolve options = .ok r ∧ Walk Typed.Child r.root bs u ∧
        Walk Schema.Child root bs u.schema ∧ d.path = (Location.root.along bs).text ∧
        d.name = u.descriptor ∧ u.schema.isObject = true ∧
        ∃ declared, u.schema.declaredFields = some declared ∧ declared ≠ []) ∧
    ∀ document : Json, document.HasDistinctKeys → Validator.metaSchema document = .ok () →
      Schema.ofJson document = .ok root → ∀ bs n, Walk Schema.Child root bs n →
        ∃ members, document.follow? (Location.root.along bs).steps = some (.object members) ∧
          Schema.ofJson (.object members) = .ok n := by
  intro options
  refine ⟨fun e h => ?_, fun m h d mem => ?_,
    fun document distinct accepted decoded bs n walk => ?_⟩
  · obtain ⟨bs, n, walk, blamed⟩ := Schema.exists_blamed_of_compile_error
      (Spellings.overridden_coversGenerics overrides) h
    exact ⟨bs, n, walk.mono Schema.UsedChild.child, blamed⟩
  · obtain ⟨r, resolved, h⟩ := bind_eq_ok.1 h
    obtain ⟨objects, hobjects, h⟩ := bind_eq_ok.1 h
    cases h
    obtain ⟨v, visited, rfl⟩ := map_eq_ok.1 hobjects
    obtain ⟨bs, u, walk, path, name, object⟩ := Definition.exists_source_of_mem_visit visited mem
    obtain ⟨n, walk', form⟩ := (Resolution.isFormOf resolved).walk walk
    obtain rfl := form.schema_eq
    exact ⟨r, bs, u, resolved, walk, walk'.mono Schema.UsedChild.child, path, name, object⟩
  · have describes : document.Describes root :=
      ⟨MetaSchema.metaSchema_eq_ok.1 accepted, distinct, decoded⟩
    obtain ⟨w, walk', describes'⟩ := describes.exists_walk walk
    obtain ⟨members, rfl⟩ := describes'.accepted.exists_object
    exact ⟨members, Json.follow?_along distinct walk', describes'.decodes⟩

/-- A definition whose one field is a list of another, as a document. -/
def ordersDocument : Json :=
  .object [("type", .string "object"), ("target_type", .string "Orders"),
    ("declared_fields", .array [.string "lines"]),
    ("properties", .object [("lines", .object [("type", .string "array"),
      ("items", .object [("type", .string "object"), ("target_type", .string "Line"),
        ("declared_fields", .array [.string "count"])])])])]

/-- The nodes of that document. -/
def orders : Schema :=
  { Schema.ofTypeName "object" with
    targetType := some "Orders"
    declaredFields := some ["lines"]
    properties := [("lines", { Schema.ofTypeName "array" with
      items := some { Schema.ofTypeName "object" with
        targetType := some "Line"
        declaredFields := some ["count"] } })] }

theorem orders_line_place :
    ordersDocument.HasDistinctKeys ∧ Validator.metaSchema ordersDocument = .ok () ∧
      Schema.ofJson ordersDocument = .ok orders ∧
      ∃ m d bs members, orders.compile {} = .ok m ∧ d ∈ m.objects ∧
        d.path = "$['properties']['lines']['items']" ∧ d.path = (Location.root.along bs).text ∧
        ordersDocument.follow? (Location.root.along bs).steps = some (.object members) := by
  have distinct : ordersDocument.HasDistinctKeys := by
    simp [ordersDocument, Json.HasDistinctKeys, Json.MembersHaveDistinctKeys,
      Json.ItemsHaveDistinctKeys]
  have accepted : Validator.metaSchema ordersDocument = .ok () := rfl
  have decoded : Schema.ofJson ordersDocument = .ok orders := rfl
  have paths : (orders.compile {}).map (·.objects.map (·.path)) =
      .ok ["$['properties']['lines']['items']", "$"] := rfl
  obtain ⟨m, compiled, paths⟩ := map_eq_ok.1 paths
  obtain ⟨d, mem, path⟩ : ∃ d ∈ m.objects, d.path = "$['properties']['lines']['items']" :=
    List.mem_map.1 (paths ▸ List.mem_cons_self)
  have places := reported_places_true [] Includes.default {} orders
  obtain ⟨r, bs, u, -, -, walk, place, -⟩ := places.2.1 m compiled d mem
  obtain ⟨members, found, -⟩ := places.2.2 ordersDocument distinct accepted decoded bs _ walk
  exact ⟨distinct, accepted, decoded, m, d, bs, members, compiled, mem, path, place, found⟩

end SchemaModel
