import SchemaModel.Model
import SchemaModel.Proofs.Resolution

/-!
# What the resolver gathers on its way

The resolver threads its findings through the tree.  What it has found in the end is what it finds
by visiting the nodes of the resolved tree one after the other: the nodes that feed a descriptor
come before the node that has it, and the properties come after.

* `Typed.nodes` — the nodes of a tree in this order; `Typed.mem_nodes` — they are all that walks
  lead to;
* `Findings.gather` — what one node adds to the findings;
* `Typed.resolveNode_gathers` — the findings of a run are gathered node by node;
* `Schema.compile_eq_ok` — what a compilation that succeeds consists of.
-/

namespace SchemaModel

open Outcome

/-! ### The nodes of a tree in order -/

namespace Typed

mutual

/-- The nodes of a tree: for each node those in its items, its prefix items and its alternatives,
then the node itself, then those in its properties. -/
def nodes : Typed → List Typed
  | ⟨schema, descriptor, items, prefixItems, oneOf, properties⟩ =>
    (match items with
      | some item => nodes item
      | none => []) ++ nodesOfList prefixItems ++ nodesOfList oneOf ++
      ⟨schema, descriptor, items, prefixItems, oneOf, properties⟩ :: nodesOfProperties properties
termination_by structural t => t

/-- The nodes of the trees of a list. -/
def nodesOfList : List Typed → List Typed
  | [] => []
  | t :: rest => nodes t ++ nodesOfList rest
termination_by structural ts => ts

/-- The nodes of the trees of properties. -/
def nodesOfProperties : List (String × Typed) → List Typed
  | [] => []
  | (_, t) :: rest => nodes t ++ nodesOfProperties rest
termination_by structural ps => ps

end

theorem nodesOfList_eq (ts : List Typed) : nodesOfList ts = ts.flatMap nodes := by
  induction ts with
  | nil => rfl
  | cons t rest ih => rw [nodesOfList, ih, List.flatMap_cons]

theorem nodesOfProperties_eq (ps : List (String × Typed)) :
    nodesOfProperties ps = ps.flatMap fun p => p.2.nodes := by
  induction ps with
  | nil => rfl
  | cons p rest ih => rw [nodesOfProperties, ih, List.flatMap_cons]

theorem nodes_eq (t : Typed) :
    t.nodes = t.items.toList.flatMap nodes ++ t.prefixItems.flatMap nodes ++
      t.oneOf.flatMap nodes ++ t :: t.properties.flatMap fun p => p.2.nodes := by
  obtain ⟨schema, descriptor, items, prefixItems, oneOf, properties⟩ := t
  cases items <;> simp [nodes, nodesOfList_eq, nodesOfProperties_eq]

/-- A node lies in a tree if it is the root or lies in the tree of a child. -/
theorem mem_nodes_iff_child {t u : Typed} :
    u ∈ t.nodes ↔ u = t ∨ ∃ b c, t.Child b c ∧ u ∈ c.nodes := by
  rw [nodes_eq]
  simp only [List.mem_append, List.mem_cons, List.mem_flatMap, Option.mem_toList]
  constructor
  · rintro (((⟨c, child, mem⟩ | ⟨c, child, mem⟩) | ⟨c, child, mem⟩) | here | ⟨p, child, mem⟩)
    · exact .inr ⟨.items, c, child, mem⟩
    · obtain ⟨i, hi⟩ := List.mem_iff_getElem?.1 child
      exact .inr ⟨.prefixItem i, c, hi, mem⟩
    · obtain ⟨i, hi⟩ := List.mem_iff_getElem?.1 child
      exact .inr ⟨.alternative i, c, hi, mem⟩
    · exact .inl here
    · exact .inr ⟨.property p.1, p.2, child, mem⟩
  · rintro (here | ⟨b, c, child, mem⟩)
    · exact .inr (.inl here)
    · cases b with
      | items => exact .inl (.inl (.inl ⟨c, child, mem⟩))
      | prefixItem i => exact .inl (.inl (.inr ⟨c, List.mem_of_getElem? child, mem⟩))
      | alternative i => exact .inl (.inr ⟨c, List.mem_of_getElem? child, mem⟩)
      | property name => exact .inr (.inr ⟨(name, c), child, mem⟩)

/-- **The nodes of a tree are all that walks lead to.** -/
theorem mem_nodes {t u : Typed} : u ∈ t.nodes ↔ ∃ bs, Walk Typed.Child t bs u := by
  induction t using Typed.induction with
  | step t ih =>
    rw [mem_nodes_iff_child]
    constructor
    · rintro (rfl | ⟨b, c, child, mem⟩)
      · exact ⟨[], .here _⟩
      · obtain ⟨bs, walk⟩ := (ih b c child).1 mem
        exact ⟨b :: bs, .down child walk⟩
    · rintro ⟨bs, walk⟩
      cases walk with
      | here => exact .inl rfl
      | down child walk => exact .inr ⟨_, _, child, (ih _ _ child).2 ⟨_, walk⟩⟩

/-! ### What a node has to add -/

/-- The shape of a node, its children being typed. -/
def shape (t : Typed) : Shape := shapeOf t.schema t.items t.prefixItems t.oneOf

/-- Whether a node is a variant of its own making. -/
def isVariant (t : Typed) : Bool := t.schema.targetType.isNone && t.shape.isVariant

theorem isVariant_of_describe {options : Options} {l : Location} {t : Typed} {isVariant : Bool}
    (h : describe options l t.schema t.items t.prefixItems t.oneOf =
      .ok (t.descriptor, isVariant)) : isVariant = t.isVariant := by
  have own := describe_eq_ok.1 h
  rw [Typed.isVariant]
  cases htarget : t.schema.targetType with
  | some explicit =>
    rw [htarget] at own
    exact own.2
  | none =>
    rw [htarget] at own
    exact own.2

/-- What a node registers as an enumeration: a node of single type `string` that lists values
registers them under its descriptor. -/
def registration? (t : Typed) : Option (String × List String) :=
  if t.schema.isString then t.schema.enum.map fun values => (t.descriptor, values) else none

theorem registration?_eq_some {t : Typed} {e : String × List String} :
    t.registration? = some e ↔
      t.schema.type = .name "string" ∧ t.schema.enum = some e.2 ∧ t.descriptor = e.1 := by
  obtain ⟨descriptor, values⟩ := e
  have single : t.schema.isString = true ↔ t.schema.type = .name "string" := by
    cases htype : t.schema.type <;> simp [Schema.isString, TypeExpr.isName, TypeExpr.single?, htype]
  rw [registration?, ← single]
  split
  · simp [*, and_comm]
  · simp [*]

end Typed

/-! ### Insertions come in any order -/

theorem insertAscending_of_lt {s u : String} (h : s < u) (rest : List String) :
    insertAscending s (u :: rest) = s :: u :: rest := by
  rw [insertAscending, if_pos h]

theorem insertAscending_self (u : String) (rest : List String) :
    insertAscending u (u :: rest) = u :: rest := by
  rw [insertAscending, if_neg (lt_irrefl u), if_pos rfl]

theorem insertAscending_of_gt {s u : String} (h : u < s) (rest : List String) :
    insertAscending s (u :: rest) = u :: insertAscending s rest := by
  rw [insertAscending, if_neg h.not_gt, if_neg h.ne']

/-- Two insertions may be swapped, even in a list that is not ascending. -/
theorem insertAscending_comm (s t : String) (us : List String) :
    insertAscending s (insertAscending t us) = insertAscending t (insertAscending s us) := by
  wlog below : s < t generalizing s t
  · rcases (not_lt.1 below).lt_or_eq with above | rfl
    · exact (this t s above).symm
    · rfl
  induction us with
  | nil =>
    show insertAscending s [t] = insertAscending t [s]
    rw [insertAscending_of_lt below, insertAscending_of_gt below]
    rfl
  | cons u rest ih =>
    rcases lt_trichotomy s u with su | rfl | us
    · -- the smaller text stays in front of whatever the other insertion leaves there
      have front : insertAscending s (insertAscending t (u :: rest)) =
          s :: insertAscending t (u :: rest) := by
        rcases lt_trichotomy t u with tu | rfl | ut
        · rw [insertAscending_of_lt tu, insertAscending_of_lt below]
        · rw [insertAscending_self, insertAscending_of_lt below]
        · rw [insertAscending_of_gt ut, insertAscending_of_lt su]
      rw [front, insertAscending_of_lt su, insertAscending_of_gt below]
    · rw [insertAscending_of_gt below, insertAscending_self, insertAscending_self,
        insertAscending_of_gt below]
    · rw [insertAscending_of_gt (us.trans below), insertAscending_of_gt us,
        insertAscending_of_gt us, insertAscending_of_gt (us.trans below), ih]

/-- Insertions one after the other. -/
def insertAll (us ss : List String) : List String := ss.foldl (fun us s => insertAscending s us) us

/-! ### What one node adds to the findings -/

namespace Findings

/-- The findings with what a node adds. -/
def gather (options : Options) (f : Findings) (t : Typed) : Findings :=
  (Typed.register options t.schema t.descriptor t.isVariant f).addIncludes options.includes
    t.descriptor

theorem gather_eq (options : Options) (f : Findings) (t : Typed) :
    f.gather options t =
      let f := if t.isVariant then f.addVariant options.helpers else f
      let f := match t.registration? with
        | some e => f.addEnum options.helpers e.1 e.2
        | none => f
      f.addIncludes options.includes t.descriptor := by
  rw [gather, Typed.register, Typed.registration?]
  cases t.schema.enum <;> cases t.schema.isString <;> rfl

/-- Adding directives changes nothing else. -/
theorem addIncludes_eq (f : Findings) (includes : Includes) (descriptor : String) :
    f.addIncludes includes descriptor =
      { f with includes := insertAll f.includes (includes.matching descriptor) } := by
  rw [addIncludes]
  induction includes.matching descriptor generalizing f with
  | nil => rfl
  | cons s rest ih => rw [List.foldl_cons, ih, addInclude, insertAll, insertAll, List.foldl_cons]

theorem addInclude_comm (f : Findings) (s t : String) :
    (f.addInclude s).addInclude t = (f.addInclude t).addInclude s := by
  simp [addInclude, insertAscending_comm]

theorem addIncludes_addInclude (f : Findings) (s : String) (includes : Includes)
    (descriptor : String) :
    (f.addInclude s).addIncludes includes descriptor =
      (f.addIncludes includes descriptor).addInclude s := by
  rw [addIncludes, addIncludes]
  induction includes.matching descriptor generalizing f with
  | nil => rfl
  | cons t rest ih => rw [List.foldl_cons, List.foldl_cons, addInclude_comm, ih]

theorem gather_addInclude (options : Options) (f : Findings) (s : String) (t : Typed) :
    (f.addInclude s).gather options t = (f.gather options t).addInclude s := by
  have variant : (f.addInclude s).addVariant options.helpers =
      (f.addVariant options.helpers).addInclude s := by
    simp [addVariant, addInclude, insertAscending_comm]
  have enum : ∀ (f : Findings) (e : String × List String),
      (f.addInclude s).addEnum options.helpers e.1 e.2 =
        (f.addEnum options.helpers e.1 e.2).addInclude s := by
    intro f e
    simp [addEnum, addInclude, insertAscending_comm]
  rw [gather_eq, gather_eq]
  cases t.isVariant <;> cases t.registration? <;> simp [variant, enum, addIncludes_addInclude]

/-- Directives added before a run are as good as added after it. -/
theorem foldl_gather_addIncludes (options : Options) (f : Findings) (ts : List Typed)
    (includes : Includes) (descriptor : String) :
    ts.foldl (gather options) (f.addIncludes includes descriptor) =
      (ts.foldl (gather options) f).addIncludes includes descriptor := by
  have one : ∀ (f : Findings) (s : String),
      ts.foldl (gather options) (f.addInclude s) = (ts.foldl (gather options) f).addInclude s := by
    intro f s
    induction ts generalizing f with
    | nil => rfl
    | cons t rest ih => rw [List.foldl_cons, List.foldl_cons, gather_addInclude, ih]
  rw [addIncludes, addIncludes]
  induction includes.matching descriptor generalizing f with
  | nil => rfl
  | cons s rest ih => rw [List.foldl_cons, List.foldl_cons, ih, one]

end Findings

/-! ### Runs of the resolver -/

namespace Typed

/-- The findings of every run over a node are gathered from its typed form. -/
def IsGathered (options : Options) (s : Schema) : Prop :=
  ∀ {l depth f t f'}, resolveNode options l depth s f = .ok (t, f') →
    f' = t.nodes.foldl (Findings.gather options) f

theorem resolveItem_gathers {options : Options} {s : Option Schema}
    (each : ∀ c, s = some c → IsGathered options c) {l : Location} {depth : Nat} {f f' : Findings}
    {t : Option Typed} (h : resolveItem options l depth s f = .ok (t, f')) :
    f' = (t.toList.flatMap nodes).foldl (Findings.gather options) f := by
  cases s with
  | none =>
    cases h
    rfl
  | some s =>
    obtain ⟨c, rfl, hc⟩ := resolveItem_eq_ok.1 h
    rw [Option.toList_some, List.flatMap_singleton]
    exact each s rfl hc

theorem resolveList_gathers {options : Options} {ss : List Schema}
    (each : ∀ s ∈ ss, IsGathered options s) {l : Location} {depth i : Nat} {f f' : Findings}
    {ts : List Typed} (h : resolveList options l depth i ss f = .ok (ts, f')) :
    f' = (ts.flatMap nodes).foldl (Findings.gather options) f := by
  induction ss generalizing i f ts with
  | nil =>
    cases h
    rfl
  | cons s ss ih =>
    obtain ⟨t, rest, f₁, rfl, ht, hrest⟩ := resolveList_cons_eq_ok.1 h
    have first := each s List.mem_cons_self ht
    have others := ih (fun s hs => each s (List.mem_cons_of_mem _ hs)) hrest
    rw [List.flatMap_cons, List.foldl_append, ← first]
    exact others

theorem resolveProperties_gathers {options : Options} {ps : List (String × Schema)}
    (each : ∀ name s, (name, s) ∈ ps → IsGathered options s) {l : Location} {depth : Nat}
    {f f' : Findings} {ts : List (String × Typed)}
    (h : resolveProperties options l depth ps f = .ok (ts, f')) :
    f' = (ts.flatMap fun p => p.2.nodes).foldl (Findings.gather options) f := by
  induction ps generalizing f ts with
  | nil =>
    cases h
    rfl
  | cons p ps ih =>
    obtain ⟨name, s⟩ := p
    obtain ⟨t, rest, f₁, rfl, ht, hrest⟩ := resolveProperties_cons_eq_ok.1 h
    have first := each name s List.mem_cons_self ht
    have others := ih (fun name s hs => each name s (List.mem_cons_of_mem _ hs)) hrest
    rw [List.flatMap_cons, List.foldl_append, ← first]
    exact others

/-- **The findings of a run are gathered node by node.**  The resolver adds the directives of a
descriptor after the properties of the node, which makes no difference. -/
theorem resolveNode_gathers (options : Options) (s : Schema) : IsGathered options s := by
  induction s using Schema.induction with
  | step s ih =>
    intro l depth f t f' h
    obtain ⟨rfl, isVariant, f₁, f₂, f₃, f₄, parts, rfl⟩ := resolveNode_eq_ok.1 h
    have used : ∀ c, (∃ b, t.schema.UsedChild b c) → IsGathered options c :=
      fun c ⟨b, child⟩ => ih b c child.child
    have items := resolveItem_gathers (fun c hc => used c ⟨.items, hc⟩) parts.items
    have prefixItems := resolveList_gathers
      (fun c hc => used c (Schema.exists_usedChild_of_mem_prefixItems hc)) parts.prefixItems
    have oneOf := resolveList_gathers
      (fun c hc => used c (Schema.exists_usedChild_of_mem_oneOf hc)) parts.oneOf
    have properties := resolveProperties_gathers
      (fun name c hc => used c ⟨.property name, hc⟩) parts.properties
    rw [nodes_eq, List.foldl_append, List.foldl_append, List.foldl_append, ← items, ← prefixItems,
      ← oneOf, List.foldl_cons, Findings.gather, Findings.foldl_gather_addIncludes,
      ← isVariant_of_describe parts.descriptor, ← properties]

end Typed

theorem Resolution.findings_eq {options : Options} {root : Schema} {r : Resolution}
    (h : root.resolve options = .ok r) :
    r.findings = r.root.nodes.foldl (Findings.gather options) {} := by
  obtain ⟨⟨t, found⟩, ht, rfl⟩ := map_eq_ok.1 h
  exact Typed.resolveNode_gathers options root ht

/-! ### Compilations -/

/-- **A compilation succeeds exactly if the nodes resolve and the search for definitions does**, and
then its model holds what these two found. -/
theorem Schema.compile_eq_ok {options : Options} {root : Schema} {m : Model} :
    root.compile options = .ok m ↔
      ∃ r objects, root.resolve options = .ok r ∧ r.root.definitions = .ok objects ∧
        m = ⟨objects, r.findings.includes, r.findings.enums, r.findings.hasEnum,
          r.findings.hasVariant, Model.sourcesFor options.helpers r.findings⟩ := by
  constructor
  · intro h
    obtain ⟨r, resolved, h⟩ := bind_eq_ok.1 h
    obtain ⟨objects, found, h⟩ := bind_eq_ok.1 h
    cases h
    exact ⟨r, objects, resolved, found, rfl⟩
  · rintro ⟨r, objects, resolved, found, rfl⟩
    exact bind_eq_ok.2 ⟨r, resolved, bind_eq_ok.2 ⟨objects, found, rfl⟩⟩

/-- **A compilation of a document succeeds exactly if the checks pass, it decodes and its nodes
compile.** -/
theorem compile_eq_ok {options : Options} {validator : Validator} {document : Json} {m : Model} :
    compile options validator document = .ok m ↔
      Nesting.check document = .ok () ∧ validator document = .ok () ∧
        ∃ root, Schema.ofJson document = .ok root ∧ root.compile options = .ok m := by
  constructor
  · intro h
    obtain ⟨⟨⟩, passed, h⟩ := bind_eq_ok.1 h
    obtain ⟨⟨⟩, valid, h⟩ := bind_eq_ok.1 h
    obtain ⟨root, decoded, h⟩ := bind_eq_ok.1 h
    exact ⟨passed, mapError_eq_ok.1 valid, root, mapError_eq_ok.1 decoded, h⟩
  · rintro ⟨passed, valid, root, decoded, h⟩
    exact bind_eq_ok.2 ⟨(), passed, bind_eq_ok.2 ⟨(), mapError_eq_ok.2 valid,
      bind_eq_ok.2 ⟨root, mapError_eq_ok.2 decoded, h⟩⟩⟩

end SchemaModel
