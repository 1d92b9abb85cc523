import SchemaModel.Proofs.Outcome
import SchemaModel.Proofs.Walk

/-!
# Resolution is compositional

The resolver threads findings, a place and a depth through a tree.  None of them enters the typed
form of a node: the typed form depends on the node and the options alone, so a node below has the
same typed form inside the tree as it has by itself.

* `Typed.resolveNode_eq_ok` — what the resolution of a node consists of, part by part;
* `Typed.resolveNode_anywhere` — the typed form of a node does not depend on where it is resolved;
* `Rules.descriptor?` — the descriptor of a node by the rules, without the resolver;
* `Typed.IsFormOf.descriptor_eq` — the resolver gives every node its descriptor by the rules;
* `resolution_compositional` — a resolved tree holds exactly the used children, described by the
  rules and each resolved as if it stood alone.
-/

namespace SchemaModel

open Outcome

/-! ### The parts of a resolution -/

namespace Typed

/-- The typed form of the items of a node, if there are any. -/
def resolveItem (options : Options) (l : Location) (depth : Nat) :
    Option Schema → Findings → Except CompileError (Option Typed × Findings)
  | none, f => .ok (none, f)
  | some s, f => do
    let (t, f) ← resolveNode options l depth s f
    return (some t, f)

/-- Every slot that the type of a node does not use counts as empty. -/
theorem resolveNode_eq (options : Options) (l : Location) (depth : Nat) (s : Schema)
    (f : Findings) :
    resolveNode options l depth s f =
      if Nesting.maxNodeDepth < depth then .error (.nestingTooDeep l Nesting.maxNodeDepth)
      else do
        let (items, f) ← resolveItem options (l.key "items") (depth + 1) s.usedItems f
        let (prefixItems, f) ←
          resolveList options (l.key "prefixItems") (depth + 1) 0 s.usedPrefixItems f
        let (oneOf, f) ← resolveList options (l.key "oneOf") (depth + 1) 0 s.usedOneOf f
        let (descriptor, isVariant) ← describe options l s items prefixItems oneOf
        let (properties, f) ← resolveProperties options (l.key "properties") (depth + 1)
          s.properties (register options s descriptor isVariant f)
        return (⟨s, descriptor, items, prefixItems, oneOf, properties⟩,
          f.addIncludes options.includes descriptor) := by
  obtain ⟨type, targetType, title, description, properties, items, prefixItems, oneOf, enum, dflt,
    declaredFields⟩ := s
  rw [resolveNode]
  split
  · rfl
  · generalize hs : Schema.mk type targetType title description properties items prefixItems oneOf
      enum dflt declaredFields = s
    have hitems : s.items = items := by rw [← hs]
    have hprefixItems : s.prefixItems = prefixItems := by rw [← hs]
    have honeOf : s.oneOf = oneOf := by rw [← hs]
    have hproperties : s.properties = properties := by rw [← hs]
    rw [Schema.usedItems, Schema.usedPrefixItems, Schema.usedOneOf, hitems, hprefixItems, honeOf,
      hproperties]
    clear hs hitems hprefixItems honeOf hproperties
    cases items with
    | none => cases s.isArray <;> cases s.isObject <;> cases prefixItems <;> cases oneOf <;> rfl
    | some item =>
      cases hr : resolveNode options (l.key "items") (depth + 1) item f <;>
        cases s.isArray <;> cases s.isObject <;> cases prefixItems <;> cases oneOf <;>
        simp only [resolveItem, hr, if_true, Bool.false_eq_true, if_false] <;> rfl

/-- The parts of the resolution of a node, with the findings before and after each. -/
structure Parts (options : Options) (l : Location) (depth : Nat) (f : Findings) (t : Typed)
    (isVariant : Bool) (f₁ f₂ f₃ f₄ : Findings) : Prop where
  shallow : depth ≤ Nesting.maxNodeDepth
  items : resolveItem options (l.key "items") (depth + 1) t.schema.usedItems f = .ok (t.items, f₁)
  prefixItems :
    resolveList options (l.key "prefixItems") (depth + 1) 0 t.schema.usedPrefixItems f₁ =
      .ok (t.prefixItems, f₂)
  oneOf :
    resolveList options (l.key "oneOf") (depth + 1) 0 t.schema.usedOneOf f₂ = .ok (t.oneOf, f₃)
  descriptor :
    describe options l t.schema t.items t.prefixItems t.oneOf = .ok (t.descriptor, isVariant)
  properties :
    resolveProperties options (l.key "properties") (depth + 1) t.schema.properties
      (register options t.schema t.descriptor isVariant f₃) = .ok (t.properties, f₄)

/-- **A node resolves exactly if its parts do**, each with the findings that the part before it
leaves. -/
theorem resolveNode_eq_ok {options : Options} {l : Location} {depth : Nat} {s : Schema}
    {f f' : Findings} {t : Typed} :
    resolveNode options l depth s f = .ok (t, f') ↔
      t.schema = s ∧ ∃ isVariant f₁ f₂ f₃ f₄, Parts options l depth f t isVariant f₁ f₂ f₃ f₄ ∧
        f₄.addIncludes options.includes t.descriptor = f' := by
  rw [resolveNode_eq]
  constructor
  · intro h
    split at h
    · cases h
    · rename_i shallow
      obtain ⟨⟨items, f₁⟩, hitems, h⟩ := bind_eq_ok.1 h
      obtain ⟨⟨prefixItems, f₂⟩, hprefixItems, h⟩ := bind_eq_ok.1 h
      obtain ⟨⟨oneOf, f₃⟩, honeOf, h⟩ := bind_eq_ok.1 h
      obtain ⟨⟨descriptor, isVariant⟩, hdescriptor, h⟩ := bind_eq_ok.1 h
      obtain ⟨⟨properties, f₄⟩, hproperties, h⟩ := bind_eq_ok.1 h
      cases h
      exact ⟨rfl, isVariant, f₁, f₂, f₃, f₄,
        ⟨Nat.not_lt.1 shallow, hitems, hprefixItems, honeOf, hdescriptor, hproperties⟩, rfl⟩
  · rintro ⟨rfl, isVariant, f₁, f₂, f₃, f₄, parts, rfl⟩
    rw [if_neg (Nat.not_lt.2 parts.shallow)]
    cases t
    refine bind_eq_ok.2 ⟨_, parts.items, bind_eq_ok.2 ⟨_, parts.prefixItems, ?_⟩⟩
    refine bind_eq_ok.2 ⟨_, parts.oneOf, bind_eq_ok.2 ⟨_, parts.descriptor, ?_⟩⟩
    exact bind_eq_ok.2 ⟨_, parts.properties, rfl⟩

theorem resolveItem_eq_ok {options : Options} {l : Location} {depth : Nat} {s : Schema}
    {f f' : Findings} {t : Option Typed} :
    resolveItem options l depth (some s) f = .ok (t, f') ↔
      ∃ c, t = some c ∧ resolveNode options l depth s f = .ok (c, f') := by
  rw [resolveItem]
  constructor
  · intro h
    obtain ⟨⟨c, f₁⟩, hc, h⟩ := bind_eq_ok.1 h
    cases h
    exact ⟨c, rfl, hc⟩
  · rintro ⟨c, rfl, hc⟩
    exact bind_eq_ok.2 ⟨_, hc, rfl⟩

theorem isSome_of_resolveItem {options : Options} {l : Location} {depth : Nat} {s : Option Schema}
    {f f' : Findings} {t : Option Typed} (h : resolveItem options l depth s f = .ok (t, f')) :
    t.isSome = s.isSome := by
  cases s with
  | none =>
    cases h
    rfl
  | some c =>
    obtain ⟨t, rfl, -⟩ := resolveItem_eq_ok.1 h
    rfl

theorem resolveList_cons_eq_ok {options : Options} {l : Location} {depth i : Nat} {s : Schema}
    {ss : List Schema} {f f' : Findings} {ts : List Typed} :
    resolveList options l depth i (s :: ss) f = .ok (ts, f') ↔
      ∃ t rest f₁, ts = t :: rest ∧ resolveNode options (l.index i) depth s f = .ok (t, f₁) ∧
        resolveList options l depth (i + 1) ss f₁ = .ok (rest, f') := by
  rw [resolveList]
  constructor
  · intro h
    obtain ⟨⟨t, f₁⟩, ht, h⟩ := bind_eq_ok.1 h
    obtain ⟨⟨rest, f₂⟩, hrest, h⟩ := bind_eq_ok.1 h
    cases h
    exact ⟨t, rest, f₁, rfl, ht, hrest⟩
  · rintro ⟨t, rest, f₁, rfl, ht, hrest⟩
    exact bind_eq_ok.2 ⟨_, ht, bind_eq_ok.2 ⟨_, hrest, rfl⟩⟩

theorem resolveProperties_cons_eq_ok {options : Options} {l : Location} {depth : Nat}
    {name : String} {s : Schema} {ps : List (String × Schema)} {f f' : Findings}
    {ts : List (String × Typed)} :
    resolveProperties options l depth ((name, s) :: ps) f = .ok (ts, f') ↔
      ∃ t rest f₁, ts = (name, t) :: rest ∧
        resolveNode options (l.key name) depth s f = .ok (t, f₁) ∧
        resolveProperties options l depth ps f₁ = .ok (rest, f') := by
  rw [resolveProperties]
  constructor
  · intro h
    obtain ⟨⟨t, f₁⟩, ht, h⟩ := bind_eq_ok.1 h
    obtain ⟨⟨rest, f₂⟩, hrest, h⟩ := bind_eq_ok.1 h
    cases h
    exact ⟨t, rest, f₁, rfl, ht, hrest⟩
  · rintro ⟨t, rest, f₁, rfl, ht, hrest⟩
    exact bind_eq_ok.2 ⟨_, ht, bind_eq_ok.2 ⟨_, hrest, rfl⟩⟩

/-- Where a list resolves, each of its nodes does. -/
theorem resolves_of_mem_list {options : Options} {ss : List Schema} {l : Location}
    {depth i : Nat} {f f' : Findings} {ts : List Typed}
    (h : resolveList options l depth i ss f = .ok (ts, f')) {s : Schema} (mem : s ∈ ss) :
    ∃ j t f₁ f₂, resolveNode options (l.index j) depth s f₁ = .ok (t, f₂) := by
  induction ss generalizing i f ts with
  | nil => cases mem
  | cons first rest ih =>
    obtain ⟨t, others, f₁, -, ht, hrest⟩ := resolveList_cons_eq_ok.1 h
    rcases List.mem_cons.1 mem with rfl | later
    · exact ⟨i, t, f, f₁, ht⟩
    · exact ih hrest later

/-- Where properties resolve, each of them does. -/
theorem resolves_of_mem_properties {options : Options} {ps : List (String × Schema)}
    {l : Location} {depth : Nat} {f f' : Findings} {ts : List (String × Typed)}
    (h : resolveProperties options l depth ps f = .ok (ts, f')) {name : String} {s : Schema}
    (mem : (name, s) ∈ ps) :
    ∃ t f₁ f₂, resolveNode options (l.key name) depth s f₁ = .ok (t, f₂) := by
  induction ps generalizing f ts with
  | nil => cases mem
  | cons p rest ih =>
    obtain ⟨t, others, f₁, -, ht, hrest⟩ := resolveProperties_cons_eq_ok.1 h
    rcases List.mem_cons.1 mem with rfl | later
    · exact ⟨t, f, f₁, ht⟩
    · exact ih hrest later

/-! ### A typed form does not depend on its place -/

/-- Where the typed form of a node exists, it exists at every place that is not deeper, whatever
has been found before. -/
def IsPortable (options : Options) (s : Schema) : Prop :=
  ∀ {l depth f t f'}, resolveNode options l depth s f = .ok (t, f') →
    ∀ l₂ depth₂ f₂, depth₂ ≤ depth → ∃ f₂', resolveNode options l₂ depth₂ s f₂ = .ok (t, f₂')

theorem resolveItem_anywhere {options : Options} {s : Option Schema}
    (each : ∀ c, s = some c → IsPortable options c) {l : Location} {depth : Nat} {f f' : Findings}
    {t : Option Typed} (h : resolveItem options l depth s f = .ok (t, f')) (l₂ : Location)
    {depth₂ : Nat} (f₂ : Findings) (shallower : depth₂ ≤ depth) :
    ∃ f₂', resolveItem options l₂ depth₂ s f₂ = .ok (t, f₂') := by
  cases s with
  | none =>
    cases h
    exact ⟨f₂, rfl⟩
  | some s =>
    obtain ⟨c, rfl, hc⟩ := resolveItem_eq_ok.1 h
    obtain ⟨f₂', hc₂⟩ := each s rfl hc l₂ depth₂ f₂ shallower
    exact ⟨f₂', resolveItem_eq_ok.2 ⟨c, rfl, hc₂⟩⟩

theorem resolveList_anywhere {options : Options} {ss : List Schema}
    (each : ∀ s ∈ ss, IsPortable options s) {l : Location} {depth i : Nat} {f f' : Findings}
    {ts : List Typed} (h : resolveList options l depth i ss f = .ok (ts, f')) (l₂ : Location)
    {depth₂ : Nat} (i₂ : Nat) (f₂ : Findings) (shallower : depth₂ ≤ depth) :
    ∃ f₂', resolveList options l₂ depth₂ i₂ ss f₂ = .ok (ts, f₂') := by
  induction ss generalizing i i₂ f f₂ ts with
  | nil =>
    cases h
    exact ⟨f₂, rfl⟩
  | cons s ss ih =>
    obtain ⟨t, rest, f₁, rfl, ht, hrest⟩ := resolveList_cons_eq_ok.1 h
    obtain ⟨g₁, ht₂⟩ := each s (by simp) ht (l₂.index i₂) depth₂ f₂ shallower
    obtain ⟨g₂, hrest₂⟩ := ih (fun s hs => each s (by simp [hs])) hrest (i₂ + 1) g₁
    exact ⟨g₂, resolveList_cons_eq_ok.2 ⟨t, rest, g₁, rfl, ht₂, hrest₂⟩⟩

theorem resolveProperties_anywhere {options : Options} {ps : List (String × Schema)}
    (each : ∀ name s, (name, s) ∈ ps → IsPortable options s) {l : Location} {depth : Nat}
    {f f' : Findings} {ts : List (String × Typed)}
    (h : resolveProperties options l depth ps f = .ok (ts, f')) (l₂ : Location) {depth₂ : Nat}
    (f₂ : Findings) (shallower : depth₂ ≤ depth) :
    ∃ f₂', resolveProperties options l₂ depth₂ ps f₂ = .ok (ts, f₂') := by
  induction ps generalizing f f₂ ts with
  | nil =>
    cases h
    exact ⟨f₂, rfl⟩
  | cons p ps ih =>
    obtain ⟨name, s⟩ := p
    obtain ⟨t, rest, f₁, rfl, ht, hrest⟩ := resolveProperties_cons_eq_ok.1 h
    obtain ⟨g₁, ht₂⟩ := each name s (by simp) ht (l₂.key name) depth₂ f₂ shallower
    obtain ⟨g₂, hrest₂⟩ := ih (fun name s hs => each name s (by simp [hs])) hrest g₁
    exact ⟨g₂, resolveProperties_cons_eq_ok.2 ⟨t, rest, g₁, rfl, ht₂, hrest₂⟩⟩

/-- The shape of a node with typed children. -/
def shapeOf (s : Schema) (items : Option Typed) (prefixItems oneOf : List Typed) : Shape :=
  Shape.of s (items.map (·.descriptor)) (prefixItems.map (·.descriptor)) (oneOf.map (·.descriptor))

theorem describe_eq_ok {options : Options} {l : Location} {s : Schema} {items : Option Typed}
    {prefixItems oneOf : List Typed} {d : String} {isVariant : Bool} :
    describe options l s items prefixItems oneOf = .ok (d, isVariant) ↔
      match s.targetType with
      | some explicit => explicit = d ∧ isVariant = false
      | none => (shapeOf s items prefixItems oneOf).descriptor options.spellings = .ok d ∧
        isVariant = (shapeOf s items prefixItems oneOf).isVariant := by
  unfold describe
  cases s.targetType with
  | some explicit => simp [eq_comm]
  | none =>
    simp only [shapeOf]
    split
    · rename_i hd
      simp [hd, eq_comm]
    · rename_i hd
      simp [hd]

/-- The place only enters the error of a failing look-up. -/
theorem describe_anywhere {options : Options} {l : Location} {s : Schema} {items : Option Typed}
    {prefixItems oneOf : List Typed} {d : String} {isVariant : Bool}
    (h : describe options l s items prefixItems oneOf = .ok (d, isVariant)) (l₂ : Location) :
    describe options l₂ s items prefixItems oneOf = .ok (d, isVariant) :=
  describe_eq_ok.2 (describe_eq_ok.1 h)

/-- **The typed form of a node does not depend on its place, its depth or what has been found
before it.** -/
theorem resolveNode_anywhere (options : Options) (s : Schema) : IsPortable options s := by
  induction s using Schema.induction with
  | step s ih =>
    intro l depth f t f' h l₂ depth₂ f₂ shallower
    obtain ⟨rfl, isVariant, f₁, f₂', f₃, f₄, parts, rfl⟩ := resolveNode_eq_ok.1 h
    have deeper : depth₂ + 1 ≤ depth + 1 := Nat.succ_le_succ shallower
    have used : ∀ c, (∃ b, t.schema.UsedChild b c) → IsPortable options c :=
      fun c ⟨b, child⟩ => ih b c child.child
    obtain ⟨g₁, hitems⟩ := resolveItem_anywhere (fun c hc => used c ⟨.items, hc⟩) parts.items
      (l₂.key "items") f₂ deeper
    obtain ⟨g₂, hprefixItems⟩ := resolveList_anywhere
      (fun c hc => used c (Schema.exists_usedChild_of_mem_prefixItems hc)) parts.prefixItems
      (l₂.key "prefixItems") 0 g₁ deeper
    obtain ⟨g₃, honeOf⟩ := resolveList_anywhere
      (fun c hc => used c (Schema.exists_usedChild_of_mem_oneOf hc)) parts.oneOf
      (l₂.key "oneOf") 0 g₂ deeper
    obtain ⟨g₄, hproperties⟩ := resolveProperties_anywhere
      (fun name c hc => used c ⟨.property name, hc⟩) parts.properties (l₂.key "properties")
      (register options t.schema t.descriptor isVariant g₃) deeper
    exact ⟨_, resolveNode_eq_ok.2 ⟨rfl, isVariant, g₁, g₂, g₃, g₄,
      ⟨Nat.le_trans shallower parts.shallow, hitems, hprefixItems, honeOf,
        describe_anywhere parts.descriptor l₂, hproperties⟩, rfl⟩⟩

/-! ### The children of a typed form -/

/-- A node is the typed form of a schema node at some place. -/
def IsFormOf (options : Options) (t : Typed) (s : Schema) : Prop :=
  ∃ l depth f f', resolveNode options l depth s f = .ok (t, f')

theorem resolveList_forms {options : Options} {l : Location} {depth i : Nat} {ss : List Schema}
    {f f' : Findings} {ts : List Typed} (h : resolveList options l depth i ss f = .ok (ts, f')) :
    List.Forall₂ (IsFormOf options) ts ss := by
  induction ss generalizing i f ts with
  | nil =>
    cases h
    exact .nil
  | cons s ss ih =>
    obtain ⟨t, rest, f₁, rfl, ht, hrest⟩ := resolveList_cons_eq_ok.1 h
    exact .cons ⟨_, _, _, _, ht⟩ (ih hrest)

theorem resolveProperties_forms {options : Options} {l : Location} {depth : Nat}
    {ps : List (String × Schema)} {f f' : Findings} {ts : List (String × Typed)}
    (h : resolveProperties options l depth ps f = .ok (ts, f')) :
    NamedForall₂ (IsFormOf options) ts ps := by
  induction ps generalizing f ts with
  | nil =>
    cases h
    exact .nil
  | cons p ps ih =>
    obtain ⟨name, s⟩ := p
    obtain ⟨t, rest, f₁, rfl, ht, hrest⟩ := resolveProperties_cons_eq_ok.1 h
    exact .cons ⟨rfl, _, _, _, _, ht⟩ (ih hrest)

theorem resolveItem_forms {options : Options} {l : Location} {depth : Nat} {s : Option Schema}
    {f f' : Findings} {t : Option Typed} (h : resolveItem options l depth s f = .ok (t, f')) :
    Option.Rel (IsFormOf options) t s := by
  cases s with
  | none =>
    cases h
    exact .none
  | some s =>
    obtain ⟨c, rfl, hc⟩ := resolveItem_eq_ok.1 h
    exact .some ⟨_, _, _, _, hc⟩

/-- The children of a typed form, slot by slot, are the typed forms of the used children. -/
structure Forms (options : Options) (t : Typed) (s : Schema) : Prop where
  items : Option.Rel (IsFormOf options) t.items s.usedItems
  prefixItems : List.Forall₂ (IsFormOf options) t.prefixItems s.usedPrefixItems
  oneOf : List.Forall₂ (IsFormOf options) t.oneOf s.usedOneOf
  properties : NamedForall₂ (IsFormOf options) t.properties s.properties

namespace IsFormOf

variable {options : Options} {t : Typed} {s : Schema}

theorem schema_eq (h : t.IsFormOf options s) : t.schema = s := by
  obtain ⟨l, depth, f, f', h⟩ := h
  exact (resolveNode_eq_ok.1 h).1

theorem forms (h : t.IsFormOf options s) : t.Forms options s := by
  obtain ⟨l, depth, f, f', h⟩ := h
  obtain ⟨rfl, isVariant, f₁, f₂, f₃, f₄, parts, rfl⟩ := resolveNode_eq_ok.1 h
  exact ⟨resolveItem_forms parts.items, resolveList_forms parts.prefixItems,
    resolveList_forms parts.oneOf, resolveProperties_forms parts.properties⟩

/-- A typed form at some place is the typed form of the node as a document of its own. -/
theorem resolve (h : t.IsFormOf options s) : ∃ r, s.resolve options = .ok r ∧ r.root = t := by
  obtain ⟨l, depth, f, f', h⟩ := h
  obtain ⟨found, alone⟩ := resolveNode_anywhere options s h .root 0 {} (Nat.zero_le depth)
  exact ⟨⟨t, found⟩, map_eq_ok.2 ⟨(t, found), alone, rfl⟩, rfl⟩

theorem child (h : t.IsFormOf options s) {b : Branch} {c : Typed} (hc : t.Child b c) :
    ∃ n, s.UsedChild b n ∧ c.IsFormOf options n := by
  have forms := h.forms
  cases b with
  | items =>
    have related := forms.items
    rw [show t.items = some c from hc] at related
    cases hs : s.usedItems with
    | none => rw [hs] at related; cases related
    | some n =>
      rw [hs] at related
      cases related with
      | some hn => exact ⟨n, hs, hn⟩
  | prefixItem i => exact Forall₂.getElem?_left forms.prefixItems hc
  | alternative i => exact Forall₂.getElem?_left forms.oneOf hc
  | property name => exact forms.properties.mem_left hc

theorem usedChild (h : t.IsFormOf options s) {b : Branch} {n : Schema} (hn : s.UsedChild b n) :
    ∃ c, t.Child b c ∧ c.IsFormOf options n := by
  have forms := h.forms
  cases b with
  | items =>
    have related := forms.items
    rw [show s.usedItems = some n from hn] at related
    cases ht : t.items with
    | none => rw [ht] at related; cases related
    | some c =>
      rw [ht] at related
      cases related with
      | some hc => exact ⟨c, ht, hc⟩
  | prefixItem i => exact Forall₂.getElem?_right forms.prefixItems hn
  | alternative i => exact Forall₂.getElem?_right forms.oneOf hn
  | property name => exact forms.properties.mem_right hn

end IsFormOf

theorem schemas_of_forms {options : Options} {ts : List Typed} {ss : List Schema}
    (h : List.Forall₂ (IsFormOf options) ts ss) : ts.map (·.schema) = ss := by
  induction h with
  | nil => rfl
  | cons form _ ih => rw [List.map_cons, form.schema_eq, ih]

theorem schemas_of_namedForms {options : Options} {ts : List (String × Typed)}
    {ps : List (String × Schema)} (h : NamedForall₂ (IsFormOf options) ts ps) :
    ts.map (fun p => (p.1, p.2.schema)) = ps := by
  induction h with
  | nil => rfl
  | cons form _ ih => rw [List.map_cons, form.2.schema_eq, form.1, ih]

theorem schema_of_form {options : Options} {t : Option Typed} {s : Option Schema}
    (h : Option.Rel (IsFormOf options) t s) : t.map (·.schema) = s := by
  cases h with
  | none => rfl
  | some form => rw [Option.map_some, form.schema_eq]

end Typed

/-! ### Descriptors by the rules -/

namespace Rules

/-- A generic type applied to its arguments, if it has a spelling and they all have descriptors. -/
def applied? (spellings : Spellings) (generic : String) (arguments : Option (List String)) :
    Option String := do
  return (← spellings.get? generic) ++ "<" ++ ", ".intercalate (← arguments) ++ ">"

mutual

/-- The descriptor of a node by the first rule that fits. -/
def descriptor? (spellings : Spellings) : Schema → Option String
  | ⟨type, targetType, _, _, _, items, prefixItems, oneOf, _, _, _⟩ =>
    match targetType, type, items, prefixItems, oneOf with
    | some explicit, _, _, _, _ => some explicit
    | none, .choice names, _, _, _ => applied? spellings "variant" (names.mapM spellings.get?)
    | none, .name "array", some item, _, _ =>
      applied? spellings "array" ((descriptor? spellings item).map fun d => [d])
    | none, .name "array", none, some elements, _ =>
      applied? spellings "tuple" (descriptors? spellings elements)
    | none, .name "object", _, _, some alternatives =>
      applied? spellings "variant" (descriptors? spellings alternatives)
    | none, .name n, _, _, _ => spellings.get? n
termination_by structural s => s

/-- The descriptors of nodes, from left to right. -/
def descriptors? (spellings : Spellings) : List Schema → Option (List String)
  | [] => some []
  | s :: rest => do return (← descriptor? spellings s) :: (← descriptors? spellings rest)
termination_by structural ss => ss

end

theorem applied?_eq_some {spellings : Spellings} {generic spelling : String}
    {arguments : List String} (h : spellings.get? generic = some spelling) :
    applied? spellings generic (some arguments) = some (Shape.apply spelling arguments) := by
  rw [applied?, h]
  rfl

theorem spell_eq_ok {spellings : Spellings} {name d : String} :
    Shape.spell spellings name = .ok d ↔ spellings.get? name = some d := by
  unfold Shape.spell
  split <;> simp_all

theorem spellAll_eq_ok {spellings : Spellings} {names ds : List String}
    (h : Shape.spellAll spellings names = .ok ds) : names.mapM spellings.get? = some ds := by
  induction names generalizing ds with
  | nil =>
    cases h
    rfl
  | cons name rest ih =>
    rw [Shape.spellAll] at h
    obtain ⟨first, hfirst, h⟩ := bind_eq_ok.1 h
    obtain ⟨others, hothers, h⟩ := bind_eq_ok.1 h
    cases h
    rw [List.mapM_cons, spell_eq_ok.1 hfirst, ih hothers]
    rfl

theorem descriptors?_eq_some {spellings : Spellings} {ts : List Typed} {ss : List Schema}
    (h : List.Forall₂ (fun t s => descriptor? spellings s = some t.descriptor) ts ss) :
    descriptors? spellings ss = some (ts.map (·.descriptor)) := by
  induction h with
  | nil => rfl
  | cons first _ ih =>
    rw [descriptors?, first, ih]
    rfl

/-- The shape of a node without an explicit type has the descriptor that the rules give. -/
theorem descriptor?_of_shape {spellings : Spellings} {s : Schema} {items : Option Typed}
    {prefixItems oneOf : List Typed} {d : String} (untargeted : s.targetType = none)
    (hitems : Option.Rel (fun t c => descriptor? spellings c = some t.descriptor) items s.usedItems)
    (hprefixItems : List.Forall₂ (fun t c => descriptor? spellings c = some t.descriptor)
      prefixItems s.usedPrefixItems)
    (honeOf : List.Forall₂ (fun t c => descriptor? spellings c = some t.descriptor)
      oneOf s.usedOneOf)
    (h : (Typed.shapeOf s items prefixItems oneOf).descriptor spellings = .ok d) :
    descriptor? spellings s = some d := by
  obtain ⟨type, targetType, title, description, properties, sitems, sprefixItems, soneOf, enum,
    dflt, declaredFields⟩ := s
  cases untargeted
  cases type with
  | choice names =>
    obtain ⟨arguments, harguments, h⟩ := bind_eq_ok.1 h
    obtain ⟨spelling, hspelling, h⟩ := bind_eq_ok.1 h
    cases h
    rw [descriptor?, spellAll_eq_ok harguments, applied?_eq_some (spell_eq_ok.1 hspelling)]
  | name n =>
    by_cases harray : n = "array"
    · subst harray
      change Option.Rel _ items sitems at hitems
      change List.Forall₂ _ prefixItems (sprefixItems.getD []) at hprefixItems
      cases hitems with
      | some hitem =>
        obtain ⟨spelling, hspelling, h⟩ := bind_eq_ok.1 h
        cases h
        rw [descriptor?, hitem]
        exact applied?_eq_some (spell_eq_ok.1 hspelling)
      | none =>
        cases sprefixItems with
        | some elements =>
          obtain ⟨spelling, hspelling, h⟩ := bind_eq_ok.1 h
          cases h
          have described : descriptors? spellings elements =
              some (prefixItems.map (·.descriptor)) := descriptors?_eq_some hprefixItems
          rw [descriptor?, described]
          exact applied?_eq_some (spell_eq_ok.1 hspelling)
        | none => exact spell_eq_ok.1 h
    · by_cases hobject : n = "object"
      · subst hobject
        change List.Forall₂ _ oneOf (soneOf.getD []) at honeOf
        cases soneOf with
        | some alternatives =>
          obtain ⟨spelling, hspelling, h⟩ := bind_eq_ok.1 h
          cases h
          have described : descriptors? spellings alternatives =
              some (oneOf.map (·.descriptor)) := descriptors?_eq_some honeOf
          rw [descriptor?, described]
          exact applied?_eq_some (spell_eq_ok.1 hspelling)
        | none => exact spell_eq_ok.1 h
      · have plain : Typed.shapeOf ⟨.name n, none, title, description, properties, sitems,
            sprefixItems, soneOf, enum, dflt, declaredFields⟩ items prefixItems oneOf =
            .plain n := by
          simp only [Typed.shapeOf, Shape.of]
          split <;> simp_all
        rw [plain] at h
        rw [descriptor?]
        · exact spell_eq_ok.1 h
        · exact fun _ _ => harray
        · exact fun _ _ _ => harray
        · exact fun _ _ => hobject

end Rules

/-- **The resolver gives a node its descriptor by the rules.** -/
theorem Typed.IsFormOf.descriptor_eq {options : Options} {t : Typed} {s : Schema}
    (h : t.IsFormOf options s) : Rules.descriptor? options.spellings s = some t.descriptor := by
  induction s using Schema.induction generalizing t with
  | step s ih =>
    have forms := h.forms
    have described : ∀ (u : Typed) c, (∃ b, s.UsedChild b c) → u.IsFormOf options c →
        Rules.descriptor? options.spellings c = some u.descriptor :=
      fun u c ⟨b, child⟩ form => ih b c child.child form
    obtain ⟨l, depth, f, f', h⟩ := h
    obtain ⟨rfl, isVariant, f₁, f₂, f₃, f₄, parts, -⟩ := resolveNode_eq_ok.1 h
    have own := describe_eq_ok.1 parts.descriptor
    cases htarget : t.schema.targetType with
    | some explicit =>
      rw [htarget] at own
      rw [← own.1]
      generalize t.schema = s at htarget
      cases s
      cases htarget
      rw [Rules.descriptor?]
    | none =>
      rw [htarget] at own
      refine Rules.descriptor?_of_shape htarget ?_ ?_ ?_ own.1
      · exact Rel.imp_of_eq_some forms.items fun u c hc => described u c ⟨.items, hc⟩
      · exact Forall₂.imp_of_mem_right forms.prefixItems fun u c hc =>
          described u c (Schema.exists_usedChild_of_mem_prefixItems hc)
      · exact Forall₂.imp_of_mem_right forms.oneOf fun u c hc =>
          described u c (Schema.exists_usedChild_of_mem_oneOf hc)

/-! ### The resolved tree of a document -/

theorem Resolution.isFormOf {options : Options} {root : Schema} {r : Resolution}
    (h : root.resolve options = .ok r) : r.root.IsFormOf options root := by
  obtain ⟨⟨t, found⟩, ht, rfl⟩ := map_eq_ok.1 h
  exact ⟨_, _, _, _, ht⟩

/-- Wherever branches lead in a resolved tree, they lead through used children in the tree it comes
from, and to the typed form of the node there. -/
theorem Typed.IsFormOf.walk {options : Options} {t u : Typed} {s : Schema} {bs : List Branch}
    (h : t.IsFormOf options s) (walk : Walk Typed.Child t bs u) :
    ∃ n, Walk Schema.UsedChild s bs n ∧ u.IsFormOf options n := by
  refine Walk.simulate ?_ walk h
  intro t c b s form child
  exact form.child child

theorem Typed.IsFormOf.usedWalk {options : Options} {t : Typed} {s n : Schema} {bs : List Branch}
    (h : t.IsFormOf options s) (walk : Walk Schema.UsedChild s bs n) :
    ∃ u, Walk Typed.Child t bs u ∧ u.IsFormOf options n := by
  refine Walk.simulate (R := fun s t => IsFormOf options t s) ?_ walk h
  intro s n b t form child
  exact form.usedChild child

/-- **Resolution is compositional.**  The branches of a resolved tree are exactly those of the used
children; every node in it has its used children in document order and the descriptor that the
rules give it, and it is what its schema node resolves to by itself. -/
theorem resolution_compositional (options : Options) (root : Schema) (r : Resolution)
    (resolved : root.resolve options = .ok r) :
    r.root.schema = root ∧
    (∀ bs n, Walk Schema.UsedChild root bs n ↔
      ∃ t, Walk Typed.Child r.root bs t ∧ t.schema = n) ∧
    ∀ bs t, Walk Typed.Child r.root bs t →
      t.items.map (·.schema) = t.schema.usedItems ∧
      t.prefixItems.map (·.schema) = t.schema.usedPrefixItems ∧
      t.oneOf.map (·.schema) = t.schema.usedOneOf ∧
      t.properties.map (fun p => (p.1, p.2.schema)) = t.schema.properties ∧
      Rules.descriptor? options.spellings t.schema = some t.descriptor ∧
      ∃ alone, t.schema.resolve options = .ok alone ∧ alone.root = t := by
  have form := Resolution.isFormOf resolved
  refine ⟨form.schema_eq, fun bs n => ⟨fun walk => ?_, ?_⟩, fun bs t walk => ?_⟩
  · obtain ⟨t, walk', form'⟩ := form.usedWalk walk
    exact ⟨t, walk', form'.schema_eq⟩
  · rintro ⟨t, walk, rfl⟩
    obtain ⟨n, walk', form'⟩ := form.walk walk
    rwa [form'.schema_eq]
  · obtain ⟨n, -, form'⟩ := form.walk walk
    obtain rfl := form'.schema_eq
    have forms := form'.forms
    exact ⟨Typed.schema_of_form forms.items, Typed.schemas_of_forms forms.prefixItems,
      Typed.schemas_of_forms forms.oneOf, Typed.schemas_of_namedForms forms.properties,
      form'.descriptor_eq, form'.resolve⟩

/-- An array with items, prefix items and a property. -/
def mixedArray : Schema :=
  { Schema.ofTypeName "array" with
    items := some { Schema.ofTypeName "object" with
      oneOf := some [Schema.ofTypeName "integer", Schema.ofTypeName "number"] }
    prefixItems := some [Schema.ofTypeName "string"]
    properties := [("note", Schema.ofTypeName "boolean")] }

theorem mixedArray_resolution :
    ∃ r, mixedArray.resolve {} = .ok r ∧
      r.root.descriptor = "std::vector<std::variant<int64_t, double>>" ∧
      r.root.prefixItems.map (·.schema) = [Schema.ofTypeName "string"] ∧
      ∃ t, Walk Typed.Child r.root [.items, .alternative 1] t ∧
        t.schema = Schema.ofTypeName "number" := by
  obtain ⟨r, resolved, descriptor⟩ : ∃ r, mixedArray.resolve {} = .ok r ∧
      r.root.descriptor = "std::vector<std::variant<int64_t, double>>" := ⟨_, rfl, rfl⟩
  obtain ⟨same, walks, nodes⟩ := resolution_compositional {} mixedArray r resolved
  refine ⟨r, resolved, descriptor, ?_, ?_⟩
  · rw [(nodes [] r.root (.here _)).2.1, same]
    rfl
  · exact (walks [.items, .alternative 1] _).1 (.down rfl (.down rfl (.here _)))

end SchemaModel
