import SchemaModel.Proofs.Gathering
import SchemaModel.Proofs.Tables

/-!
# The enumerations of a model

A node of single type `string` that lists values registers them under its descriptor, and no other
node registers anything.  Several nodes may share a descriptor: the entry then stands where the
first of them put it and holds the values of the last.

* `Typed.registrations` — what the nodes of a tree register, in order;
* `Findings.enums_foldl`, `Findings.hasEnum_foldl` — what a run leaves of it;
* `Typed.mem_registrations` — which nodes register;
* `enumerations_are_registrations` — the enumerations of a model.
-/

namespace SchemaModel

namespace Findings

/-- One node puts what it registers on top of what has been registered before. -/
theorem enums_gather (options : Options) (f : Findings) (t : Typed) :
    (f.gather options t).enums = f.enums.putAll t.registration?.toList := by
  simp only [gather_eq, addIncludes_eq]
  cases t.isVariant <;> cases t.registration? <;> rfl

theorem enums_foldl (options : Options) (f : Findings) (ts : List Typed) :
    (ts.foldl (gather options) f).enums = f.enums.putAll (ts.filterMap Typed.registration?) := by
  induction ts generalizing f with
  | nil => rfl
  | cons t rest ih =>
    rw [List.foldl_cons, ih, enums_gather]
    cases hreg : t.registration? with
    | none => rw [List.filterMap_cons_none hreg]; rfl
    | some e => rw [List.filterMap_cons_some hreg]; rfl

/-- One node that registers something sets the flag for good. -/
theorem hasEnum_gather (options : Options) (f : Findings) (t : Typed) :
    (f.gather options t).hasEnum = (f.hasEnum || t.registration?.isSome) := by
  simp only [gather_eq, addIncludes_eq]
  cases t.isVariant <;> cases t.registration? <;> simp [addVariant, addEnum, addInclude]

theorem hasEnum_foldl (options : Options) (f : Findings) (ts : List Typed) :
    (ts.foldl (gather options) f).hasEnum =
      (f.hasEnum || ts.any fun t => t.registration?.isSome) := by
  induction ts generalizing f with
  | nil => simp
  | cons t rest ih => rw [List.foldl_cons, ih, hasEnum_gather, List.any_cons, Bool.or_assoc]

end Findings

namespace Typed

/-- What the nodes of a tree register as enumerations, in the order of the nodes. -/
def registrations (t : Typed) : List (String × List String) := t.nodes.filterMap registration?

/-- **The nodes that register are those of single type `string` that list values**, among the nodes
that used children lead to. -/
theorem mem_registrations {options : Options} {t : Typed} {root : Schema}
    (form : t.IsFormOf options root) {d : String} {values : List String} :
    (d, values) ∈ t.registrations ↔
      ∃ bs n, Walk Schema.UsedChild root bs n ∧ n.type = .name "string" ∧
        n.enum = some values ∧ Rules.descriptor? options.spellings n = some d := by
  rw [registrations, List.mem_filterMap]
  constructor
  · rintro ⟨u, mem, hreg⟩
    obtain ⟨string, lists, rfl⟩ := registration?_eq_some.1 hreg
    obtain ⟨bs, walk⟩ := mem_nodes.1 mem
    obtain ⟨n, walk', form'⟩ := form.walk walk
    obtain rfl := form'.schema_eq
    exact ⟨bs, u.schema, walk', string, lists, form'.descriptor_eq⟩
  · rintro ⟨bs, n, walk, string, lists, described⟩
    obtain ⟨u, walk', form'⟩ := form.usedWalk walk
    obtain rfl := form'.schema_eq
    have same : u.descriptor = d := Option.some.inj (form'.descriptor_eq.symm.trans described)
    exact ⟨u, mem_nodes.2 ⟨bs, walk'⟩, registration?_eq_some.2 ⟨string, lists, same⟩⟩

end Typed

theorem Resolution.enums_eq {options : Options} {root : Schema} {r : Resolution}
    (h : root.resolve options = .ok r) :
    r.findings.enums = Table.ofEntries r.root.registrations := by
  rw [Resolution.findings_eq h, Findings.enums_foldl]
  rfl

/-- **The enumerations of a model are the registrations of its string nodes.**  Each descriptor
stands once, in the order of the first registrations, with the values of the last one; the nodes
that register are the nodes of single type `string` with values that used children lead to. -/
theorem enumerations_are_registrations (options : Options) (root : Schema) (m : Model)
    (compiled : root.compile options = .ok m) :
    ∃ r, root.resolve options = .ok r ∧
      m.enums.keys = (r.root.registrations.map Prod.fst).eraseDups ∧ m.enums.keys.Nodup ∧
      (∀ d, m.enums.get? d = r.root.registrations.reverse.lookup d) ∧
      ∀ d values, (d, values) ∈ r.root.registrations ↔
        ∃ bs n, Walk Schema.UsedChild root bs n ∧ n.type = .name "string" ∧
          n.enum = some values ∧ Rules.descriptor? options.spellings n = some d := by
  obtain ⟨r, objects, resolved, -, rfl⟩ := Schema.compile_eq_ok.1 compiled
  have empty : (Table.keys ([] : Table (List String))).Nodup := List.nodup_nil
  have enums := Resolution.enums_eq resolved
  refine ⟨r, resolved, ?_, ?_, fun d => ?_, fun d values => ?_⟩
  · show Table.keys r.findings.enums = _
    rw [enums]
    exact Table.keys_putAll empty _
  · show (Table.keys r.findings.enums).Nodup
    rw [enums]
    exact Table.keys_putAll_nodup empty _
  · show Table.get? r.findings.enums d = _
    rw [enums]
    exact (Table.get?_putAll [] _ d).trans (Option.or_none)
  · exact Typed.mem_registrations (Resolution.isFormOf resolved)

/-- An object whose alternative and properties list values; two of them share a descriptor, and one
is a number. -/
def shades : Schema :=
  { Schema.ofTypeName "object" with
    targetType := some "Shades"
    oneOf := some [{ Schema.ofTypeName "string" with
      targetType := some "Size", enum := some ["small", "large"] }]
    properties := [
      ("first", { Schema.ofTypeName "string" with
        targetType := some "Color", enum := some ["red"] }),
      ("count", { Schema.ofTypeName "integer" with enum := some ["one"] }),
      ("rest", { Schema.ofTypeName "array" with
        items := some { Schema.ofTypeName "string" with
          targetType := some "Color", enum := some ["green", "blue"] } })] }

theorem shades_enumerations :
    ∃ m, shades.compile {} = .ok m ∧ m.enums.keys = ["Size", "Color"] ∧
      m.enums.get? "Color" = some ["green", "blue"] ∧ m.enums.get? "int64_t" = none := by
  obtain ⟨m, compiled⟩ : ∃ m, shades.compile {} = .ok m := ⟨_, rfl⟩
  obtain ⟨r, resolved, keys, -, values, -⟩ := enumerations_are_registrations {} shades m compiled
  have registered : (shades.resolve {}).map (·.root.registrations) =
      .ok [("Size", ["small", "large"]), ("Color", ["red"]), ("Color", ["green", "blue"])] := rfl
  rw [resolved] at registered
  have registered : r.root.registrations =
      [("Size", ["small", "large"]), ("Color", ["red"]), ("Color", ["green", "blue"])] :=
    Except.ok.inj registered
  rw [registered] at keys values
  refine ⟨m, compiled, ?_, ?_, ?_⟩
  · rw [keys]
    decide
  · rw [values]
    rfl
  · rw [values]
    rfl

end SchemaModel
