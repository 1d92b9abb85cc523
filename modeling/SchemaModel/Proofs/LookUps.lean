import SchemaModel.Proofs.Directives
import SchemaModel.Proofs.Failures

/-!
# Which names a node looks up

A node without an explicit type looks up the spellings of a few names, which its own type and slots
decide; no other part of the options has a say in its typed form.  So two tables of spellings that
agree on the names that are looked up, up to the first error if there is one, give the same typed
form or the same error, and include directives and support sources show nowhere but in what is
gathered afterwards.

* `Schema.lookups` — the names that a node looks up;
* `Schema.LooksUp` — the names that a run of the resolver looks up;
* `Shape.descriptor_congr`, `Shape.exists_descriptor_iff` — a descriptor is made of their spellings;
* `Typed.resolveNode_congr` — typed forms and errors depend on nothing else;
* `Schema.exists_resolve_iff` — a tree resolves exactly if it is not too deep and all names that it
  looks up have spellings;
* `Schema.compile_eq_bind` — a compilation as a function of the typed form;
* `options_act_where_looked_up` — what a part of the options can change.
-/

namespace SchemaModel

open Outcome

/-! ### The names in a shape -/

namespace Shape

/-- The names whose spellings make up the descriptor of a shape. -/
def names : Shape → List String
  | .choice names => names ++ ["variant"]
  | .array _ => ["array"]
  | .tuple _ => ["tuple"]
  | .variant _ => ["variant"]
  | .plain name => [name]

variable {spellings spellings' : Spellings}

theorem spell_congr {name : String} (agree : spellings.get? name = spellings'.get? name) :
    spell spellings name = spell spellings' name := by
  rw [spell, spell, agree]

theorem spellAll_congr {names : List String}
    (agree : ∀ name ∈ names, spellings.get? name = spellings'.get? name) :
    spellAll spellings names = spellAll spellings' names := by
  induction names with
  | nil => rfl
  | cons name rest ih =>
    have first := spell_congr (agree name List.mem_cons_self)
    rw [spellAll, spellAll, first, ih fun name mem => agree name (List.mem_cons_of_mem _ mem)]

/-- **The descriptor of a shape is made of the spellings of its names.** -/
theorem descriptor_congr {shape : Shape}
    (agree : ∀ name ∈ shape.names, spellings.get? name = spellings'.get? name) :
    shape.descriptor spellings = shape.descriptor spellings' := by
  cases shape with
  | choice names =>
    have own : ∀ name ∈ names, spellings.get? name = spellings'.get? name :=
      fun name mem => agree name (List.mem_append_left _ mem)
    have variant := spell_congr (agree "variant" (by simp [Shape.names]))
    rw [descriptor, descriptor, spellAll_congr own, variant]
  | _ => rw [descriptor, descriptor, spell_congr (agree _ List.mem_cons_self)]

theorem exists_spell_iff {name : String} :
    (∃ d, spell spellings name = .ok d) ↔ spellings.get? name ≠ none := by
  unfold spell
  cases spellings.get? name <;> simp

theorem exists_spellAll_iff {names : List String} :
    (∃ ds, spellAll spellings names = .ok ds) ↔
      ∀ name ∈ names, spellings.get? name ≠ none := by
  induction names with
  | nil => simp [spellAll]
  | cons name rest ih =>
    rw [List.forall_mem_cons, ← ih, ← exists_spell_iff, spellAll]
    constructor
    · rintro ⟨ds, h⟩
      obtain ⟨d, hd, h⟩ := bind_eq_ok.1 h
      obtain ⟨others, hothers, -⟩ := bind_eq_ok.1 h
      exact ⟨⟨d, hd⟩, others, hothers⟩
    · rintro ⟨⟨d, hd⟩, others, hothers⟩
      exact ⟨d :: others, bind_eq_ok.2 ⟨d, hd, bind_eq_ok.2 ⟨others, hothers, rfl⟩⟩⟩

/-- A shape has a descriptor exactly if all its names have spellings. -/
theorem exists_descriptor_iff {shape : Shape} :
    (∃ d, shape.descriptor spellings = .ok d) ↔
      ∀ name ∈ shape.names, spellings.get? name ≠ none := by
  have generic : ∀ (name : String) (arguments : List String),
      (∃ d, (do return apply (← spell spellings name) arguments : Except String String) = .ok d) ↔
        spellings.get? name ≠ none := by
    intro name arguments
    rw [← exists_spell_iff]
    constructor
    · rintro ⟨d, h⟩
      obtain ⟨spelling, hspelling, -⟩ := bind_eq_ok.1 h
      exact ⟨spelling, hspelling⟩
    · rintro ⟨spelling, hspelling⟩
      exact ⟨_, bind_eq_ok.2 ⟨spelling, hspelling, rfl⟩⟩
  cases shape with
  | choice names =>
    rw [Shape.names, List.forall_mem_append, List.forall_mem_singleton, ← exists_spellAll_iff]
    constructor
    · rintro ⟨d, h⟩
      obtain ⟨arguments, harguments, h⟩ := bind_eq_ok.1 h
      exact ⟨⟨arguments, harguments⟩, (generic "variant" arguments).1 ⟨d, h⟩⟩
    · rintro ⟨⟨arguments, harguments⟩, spelled⟩
      obtain ⟨d, h⟩ := (generic "variant" arguments).2 spelled
      exact ⟨d, bind_eq_ok.2 ⟨arguments, harguments, h⟩⟩
  | plain name =>
    rw [names, List.forall_mem_singleton]
    exact exists_spell_iff
  | _ =>
    rw [names, List.forall_mem_singleton]
    exact generic _ _

end Shape

/-! ### The names that a node looks up -/

/-- The names that a node looks up to describe itself: none if it has an explicit type; those of a
choice, and the generic type that holds them; the generic type of an array or a variant; or else
the type name itself. -/
def Schema.lookups (s : Schema) : List String :=
  match s.targetType, s.type with
  | some _, _ => []
  | none, .choice names => names ++ ["variant"]
  | none, .name n =>
    if n = "array" ∧ s.items.isSome then ["array"]
    else if n = "array" ∧ s.prefixItems.isSome then ["tuple"]
    else if n = "object" ∧ s.oneOf.isSome then ["variant"]
    else [n]

namespace Typed

/-- The names in the shape of a node are the names that the node looks up. -/
theorem names_shapeOf {s : Schema} (untargeted : s.targetType = none) {items : Option Typed}
    (same : items.isSome = s.usedItems.isSome) (prefixItems oneOf : List Typed) :
    (shapeOf s items prefixItems oneOf).names = s.lookups := by
  rw [Schema.lookups, untargeted, shapeOf, Shape.of]
  cases htype : s.type with
  | choice names => rfl
  | name n =>
    by_cases array : n = "array"
    · subst array
      have used : s.usedItems = s.items := by
        rw [Schema.usedItems, Schema.isArray, htype]
        rfl
      rw [used] at same
      cases items with
      | some item => simp [← same, Shape.names]
      | none => cases s.prefixItems <;> simp [← same, Shape.names]
    · by_cases object : n = "object"
      · subst object
        cases s.oneOf <;> cases items <;> simp [Shape.names]
      · simp [array, object, Shape.names]

variable {options options' : Options}

theorem describe_congr {s : Schema} {items : Option Typed}
    (same : items.isSome = s.usedItems.isSome)
    (agree : ∀ name ∈ s.lookups, options.spellings.get? name = options'.spellings.get? name)
    (l : Location) (prefixItems oneOf : List Typed) :
    describe options l s items prefixItems oneOf =
      describe options' l s items prefixItems oneOf := by
  unfold describe
  cases untargeted : s.targetType with
  | some explicit => rfl
  | none =>
    rw [← names_shapeOf untargeted same prefixItems oneOf] at agree
    have descriptors := Shape.descriptor_congr agree
    rw [shapeOf] at descriptors
    simp only [descriptors]

/-- A node that has a descriptor looks up names that have spellings. -/
theorem spelled_of_describe {l : Location} {s : Schema} {items : Option Typed}
    (same : items.isSome = s.usedItems.isSome) {prefixItems oneOf : List Typed}
    {described : String × Bool}
    (h : describe options l s items prefixItems oneOf = .ok described) :
    ∀ name ∈ s.lookups, options.spellings.get? name ≠ none := by
  have own := describe_eq_ok.1 h
  cases untargeted : s.targetType with
  | some explicit =>
    rw [Schema.lookups, untargeted]
    exact List.forall_mem_nil _
  | none =>
    rw [untargeted] at own
    rw [← names_shapeOf untargeted same prefixItems oneOf]
    exact Shape.exists_descriptor_iff.1 ⟨_, own.1⟩

/-! ### The names that a run looks up -/

/-- A node at a depth has a typed form. -/
def Resolves (options : Options) (depth : Nat) (s : Schema) : Prop :=
  ∃ l f p, resolveNode options l depth s f = .ok p

end Typed

/-- The children that a node resolves before it describes itself, in order. -/
def Schema.feeders (s : Schema) : List Schema :=
  s.usedItems.toList ++ s.usedPrefixItems ++ s.usedOneOf

/-- A run of the resolver looks up a name at a node, at a depth, or below it.  The run resolves the
children that feed the node, then describes the node and then resolves its properties; it ends with
the first of these steps that fails. -/
inductive Schema.LooksUp (options : Options) : Nat → Schema → String → Prop
  | own {depth : Nat} {s : Schema} {name : String} (shallow : depth ≤ Nesting.maxNodeDepth)
      (fed : ∀ c ∈ s.feeders, Typed.Resolves options (depth + 1) c) (mem : name ∈ s.lookups) :
      LooksUp options depth s name
  | feeder {depth : Nat} {s c : Schema} {before after : List Schema} {name : String}
      (shallow : depth ≤ Nesting.maxNodeDepth) (order : s.feeders = before ++ c :: after)
      (resolved : ∀ e ∈ before, Typed.Resolves options (depth + 1) e)
      (below : LooksUp options (depth + 1) c name) : LooksUp options depth s name
  | property {depth : Nat} {s c : Schema} {before after : List Schema} {name : String}
      (shallow : depth ≤ Nesting.maxNodeDepth)
      (fed : ∀ c ∈ s.feeders, Typed.Resolves options (depth + 1) c)
      (described : ∀ own ∈ s.lookups, options.spellings.get? own ≠ none)
      (order : s.properties.map Prod.snd = before ++ c :: after)
      (resolved : ∀ e ∈ before, Typed.Resolves options (depth + 1) e)
      (below : LooksUp options (depth + 1) c name) : LooksUp options depth s name

theorem Schema.exists_usedChild_of_mem_feeders {s c : Schema} (mem : c ∈ s.feeders) :
    ∃ b, s.UsedChild b c := by
  rcases List.mem_append.1 mem with mem | alternative
  · rcases List.mem_append.1 mem with items | element
    · exact ⟨.items, Option.mem_toList.1 items⟩
    · exact exists_usedChild_of_mem_prefixItems element
  · exact exists_usedChild_of_mem_oneOf alternative

theorem Schema.exists_usedChild_of_mem_properties {s c : Schema}
    (mem : c ∈ s.properties.map Prod.snd) : ∃ b, s.UsedChild b c := by
  obtain ⟨p, listed, rfl⟩ := List.mem_map.1 mem
  exact ⟨.property p.1, listed⟩

/-- A name that a run looks up is one of those of a node that used children lead to. -/
theorem Schema.LooksUp.exists_walk {options : Options} {depth : Nat} {s : Schema} {name : String}
    (h : s.LooksUp options depth name) :
    ∃ bs n, Walk UsedChild s bs n ∧ name ∈ n.lookups := by
  induction h with
  | own _ _ mem => exact ⟨[], _, .here _, mem⟩
  | feeder _ order _ _ ih =>
    obtain ⟨b, child⟩ := exists_usedChild_of_mem_feeders (order ▸ List.mem_append_cons_self)
    obtain ⟨bs, n, walk, mem⟩ := ih
    exact ⟨b :: bs, n, .down child walk, mem⟩
  | property _ _ _ order _ _ ih =>
    obtain ⟨b, child⟩ := exists_usedChild_of_mem_properties (order ▸ List.mem_append_cons_self)
    obtain ⟨bs, n, walk, mem⟩ := ih
    exact ⟨b :: bs, n, .down child walk, mem⟩

/-! ### Typed forms depend on the names looked up -/

namespace Typed

variable {options options' : Options}

/-- A node resolves to the same typed form, or with the same error, under both options, whatever has
been found before. -/
def ResolvesAlike (options options' : Options) (depth : Nat) (s : Schema) : Prop :=
  ∀ l f f', (resolveNode options l depth s f).map Prod.fst =
    (resolveNode options' l depth s f').map Prod.fst

/-- A run through a list of nodes goes alike under both options, as far as it comes. -/
def RunsAlike (options options' : Options) (depth : Nat) (ss : List Schema) : Prop :=
  ∀ before s after, ss = before ++ s :: after → (∀ e ∈ before, Resolves options depth e) →
    ResolvesAlike options options' depth s

variable {depth : Nat}

theorem RunsAlike.left {ss ss' : List Schema}
    (h : RunsAlike options options' depth (ss ++ ss')) :
    RunsAlike options options' depth ss := by
  rintro before c after rfl resolved
  exact h before c (after ++ ss') (by simp) resolved

theorem RunsAlike.right {ss ss' : List Schema}
    (h : RunsAlike options options' depth (ss ++ ss'))
    (first : ∀ s ∈ ss, Resolves options depth s) : RunsAlike options options' depth ss' := by
  rintro before c after rfl resolved
  exact h (ss ++ before) c after (by simp) (List.forall_mem_append.2 ⟨first, resolved⟩)

theorem RunsAlike.rest {s : Schema} {ss : List Schema}
    (h : RunsAlike options options' depth (s :: ss)) (first : Resolves options depth s) :
    RunsAlike options options' depth ss :=
  right (show RunsAlike options options' depth ([s] ++ ss) from h)
    (List.forall_mem_singleton.2 first)

theorem resolves_of_resolveItem {s : Option Schema} {l : Location} {f f' : Findings}
    {t : Option Typed} (h : resolveItem options l depth s f = .ok (t, f')) :
    ∀ c ∈ s.toList, Resolves options depth c := by
  intro c mem
  obtain rfl := Option.mem_toList.1 mem
  obtain ⟨u, -, hu⟩ := resolveItem_eq_ok.1 h
  exact ⟨_, _, _, hu⟩

theorem resolves_of_resolveList {ss : List Schema} {l : Location} {i : Nat} {f f' : Findings}
    {ts : List Typed} (h : resolveList options l depth i ss f = .ok (ts, f')) :
    ∀ s ∈ ss, Resolves options depth s := by
  intro s mem
  obtain ⟨j, t, f₁, f₂, hs⟩ := resolves_of_mem_list h mem
  exact ⟨_, _, _, hs⟩

theorem resolveItem_congr {s : Option Schema}
    (alike : RunsAlike options options' depth s.toList) (l : Location) (f f' : Findings) :
    (resolveItem options l depth s f).map Prod.fst =
      (resolveItem options' l depth s f').map Prod.fst := by
  cases s with
  | none => rfl
  | some c =>
    have own := alike [] c [] rfl (List.forall_mem_nil _)
    exact bind_map_fst_congr (own l f f') fun _ _ _ _ => rfl

theorem resolveList_congr {ss : List Schema} (alike : RunsAlike options options' depth ss)
    (l : Location) (i : Nat) (f f' : Findings) :
    (resolveList options l depth i ss f).map Prod.fst =
      (resolveList options' l depth i ss f').map Prod.fst := by
  induction ss generalizing i f f' with
  | nil => rfl
  | cons s rest ih =>
    have first := alike [] s rest rfl (List.forall_mem_nil _)
    refine bind_map_fst_congr (first (l.index i) f f') fun _ f₁ f₁' resolved => ?_
    have others := ih (alike.rest ⟨_, _, _, resolved⟩) (i + 1) f₁ f₁'
    exact bind_map_fst_congr others fun _ _ _ _ => rfl

theorem resolveProperties_congr {ps : List (String × Schema)}
    (alike : RunsAlike options options' depth (ps.map Prod.snd)) (l : Location)
    (f f' : Findings) :
    (resolveProperties options l depth ps f).map Prod.fst =
      (resolveProperties options' l depth ps f').map Prod.fst := by
  induction ps generalizing f f' with
  | nil => rfl
  | cons p rest ih =>
    obtain ⟨name, s⟩ := p
    have first := alike [] s (rest.map Prod.snd) rfl (List.forall_mem_nil _)
    refine bind_map_fst_congr (first (l.key name) f f') fun _ f₁ f₁' resolved => ?_
    have others := ih (alike.rest ⟨_, _, _, resolved⟩) f₁ f₁'
    exact bind_map_fst_congr others fun _ _ _ _ => rfl

/-- **The typed form of a node, or the error in its place, depends on nothing but the node and the
spellings of the names that a run looks up.** -/
theorem resolveNode_congr (s : Schema) {depth : Nat}
    (agree : ∀ name, s.LooksUp options depth name →
      options.spellings.get? name = options'.spellings.get? name) :
    ResolvesAlike options options' depth s := by
  induction s using Schema.induction generalizing depth with
  | step s ih =>
    -- the steps of the run are compared in order, each only where those before it have a result
    intro l f f'
    rw [resolveNode_eq, resolveNode_eq]
    split
    · rfl
    rename_i deep
    have shallow := Nat.not_lt.1 deep
    have feeders : RunsAlike options options' (depth + 1) s.feeders := by
      intro before c after order resolved
      obtain ⟨b, child⟩ :=
        Schema.exists_usedChild_of_mem_feeders (order ▸ List.mem_append_cons_self)
      exact ih b c child.child fun name below => agree name (.feeder shallow order resolved below)
    refine bind_map_fst_congr (resolveItem_congr feeders.left.left _ f f')
      fun items f₁ f₁' hitems => ?_
    have item := resolves_of_resolveItem hitems
    refine bind_map_fst_congr (resolveList_congr (feeders.left.right item) _ 0 f₁ f₁')
      fun prefixItems f₂ f₂' hprefixItems => ?_
    have fed := List.forall_mem_append.2 ⟨item, resolves_of_resolveList hprefixItems⟩
    refine bind_map_fst_congr (resolveList_congr (feeders.right fed) _ 0 f₂ f₂')
      fun oneOf f₃ f₃' honeOf => ?_
    have fed := List.forall_mem_append.2 ⟨fed, resolves_of_resolveList honeOf⟩
    have same := isSome_of_resolveItem hitems
    have described := describe_congr same (fun name mem => agree name (.own shallow fed mem)) l
      prefixItems oneOf
    simp only [← described]
    cases own : describe options l s items prefixItems oneOf with
    | error e => rfl
    | ok p =>
      have properties : RunsAlike options options' (depth + 1) (s.properties.map Prod.snd) := by
        intro before c after order resolved
        obtain ⟨b, child⟩ :=
          Schema.exists_usedChild_of_mem_properties (order ▸ List.mem_append_cons_self)
        exact ih b c child.child fun name below =>
          agree name (.property shallow fed (spelled_of_describe same own) order resolved below)
      exact bind_map_fst_congr (resolveProperties_congr properties _ _ _) fun _ _ _ _ => rfl

/-! ### When a tree resolves -/

/-- A used child of a node that resolves resolves too, one level deeper. -/
theorem resolves_of_usedChild {l : Location} {s c : Schema} {f f' : Findings} {t : Typed}
    (h : resolveNode options l depth s f = .ok (t, f')) {b : Branch} (child : s.UsedChild b c) :
    ∃ l' u f₁ f₂, resolveNode options l' (depth + 1) c f₁ = .ok (u, f₂) := by
  obtain ⟨rfl, isVariant, f₁, f₂, f₃, f₄, parts, -⟩ := resolveNode_eq_ok.1 h
  cases b with
  | items =>
    have items := parts.items
    rw [show t.schema.usedItems = some c from child] at items
    obtain ⟨u, -, hu⟩ := resolveItem_eq_ok.1 items
    exact ⟨_, u, _, _, hu⟩
  | prefixItem i =>
    obtain ⟨j, resolved⟩ := resolves_of_mem_list parts.prefixItems (List.mem_of_getElem? child)
    exact ⟨_, resolved⟩
  | alternative i =>
    obtain ⟨j, resolved⟩ := resolves_of_mem_list parts.oneOf (List.mem_of_getElem? child)
    exact ⟨_, resolved⟩
  | property name => exact ⟨_, resolves_of_mem_properties parts.properties child⟩

/-- No node that used children lead to lies too deep in a tree that resolves. -/
theorem shallow_of_resolveNode {l : Location} {s n : Schema} {f f' : Findings} {t : Typed}
    (h : resolveNode options l depth s f = .ok (t, f')) {bs : List Branch}
    (walk : Walk Schema.UsedChild s bs n) : depth + bs.length ≤ Nesting.maxNodeDepth := by
  induction walk generalizing l depth f t f' with
  | here s =>
    obtain ⟨-, isVariant, f₁, f₂, f₃, f₄, parts, -⟩ := resolveNode_eq_ok.1 h
    exact parts.shallow
  | down child _ ih =>
    obtain ⟨l', u, f₁, f₂, hu⟩ := resolves_of_usedChild h child
    have shallow := ih hu
    rw [List.length_cons]
    omega

/-- The descriptor of a typed form is the explicit type of the node or that of its shape. -/
theorem IsFormOf.described {s : Schema} {t : Typed} (h : t.IsFormOf options s) :
    match s.targetType with
    | some explicit => explicit = t.descriptor
    | none =>
      (shapeOf s t.items t.prefixItems t.oneOf).descriptor options.spellings =
        .ok t.descriptor := by
  obtain ⟨l, depth, f, f', h⟩ := h
  obtain ⟨rfl, isVariant, f₁, f₂, f₃, f₄, parts, -⟩ := resolveNode_eq_ok.1 h
  have own := describe_eq_ok.1 parts.descriptor
  cases untargeted : t.schema.targetType with
  | some explicit =>
    rw [untargeted] at own
    exact own.1
  | none =>
    rw [untargeted] at own
    exact own.1

/-- The names in the shape of a typed form are those that the node looks up. -/
theorem IsFormOf.names_eq {s : Schema} {t : Typed} (h : t.IsFormOf options s)
    (untargeted : s.targetType = none) :
    (shapeOf s t.items t.prefixItems t.oneOf).names = s.lookups := by
  refine names_shapeOf untargeted ?_ t.prefixItems t.oneOf
  rw [← schema_of_form h.forms.items, Option.isSome_map]

/-- The names that a node looks up have spellings if the node resolves. -/
theorem IsFormOf.spelled {s : Schema} {t : Typed} (h : t.IsFormOf options s) :
    ∀ name ∈ s.lookups, options.spellings.get? name ≠ none := by
  obtain ⟨l, depth, f, f', h⟩ := h
  obtain ⟨rfl, isVariant, f₁, f₂, f₃, f₄, parts, -⟩ := resolveNode_eq_ok.1 h
  exact spelled_of_describe (isSome_of_resolveItem parts.items) parts.descriptor

/-- A node that has no descriptor looks up a name without a spelling. -/
theorem IsUndescribed.exists_unspelled {l : Location} {s : Schema} {e : CompileError}
    (h : IsUndescribed options l s e) :
    ∃ name ∈ s.lookups, options.spellings.get? name = none := by
  obtain ⟨items, prefixItems, oneOf, same, undescribed⟩ := h
  obtain ⟨untargeted, name, -, failed⟩ := describe_eq_error undescribed
  by_contra spelled
  push Not at spelled
  rw [← names_shapeOf untargeted same prefixItems oneOf] at spelled
  obtain ⟨d, described⟩ := Shape.exists_descriptor_iff.2 spelled
  cases described.symm.trans failed

end Typed

/-- **A tree resolves exactly if no node that used children lead to lies too deep and every name
that one of them looks up has a spelling.** -/
theorem Schema.exists_resolve_iff {options : Options} {root : Schema} :
    (∃ r, root.resolve options = .ok r) ↔
      ∀ bs n, Walk Schema.UsedChild root bs n → bs.length ≤ Nesting.maxNodeDepth ∧
        ∀ name ∈ n.lookups, options.spellings.get? name ≠ none := by
  constructor
  · rintro ⟨r, resolved⟩ bs n walk
    obtain ⟨p, hp, -⟩ := map_eq_ok.1 resolved
    have shallow := Typed.shallow_of_resolveNode hp walk
    obtain ⟨t, -, form⟩ := (Resolution.isFormOf resolved).usedWalk walk
    exact ⟨by omega, form.spelled⟩
  · intro fine
    rcases ok_or_error (root.resolve options) with resolved | ⟨e, failed⟩
    · exact resolved
    · obtain ⟨bs, n, walk, ⟨deep, -⟩ | undescribed⟩ := exists_origin_of_resolve_error failed
      · have shallow := (fine bs n walk).1
        omega
      · obtain ⟨name, mem, unspelled⟩ := undescribed.exists_unspelled
        exact absurd unspelled ((fine bs n walk).2 name mem)

/-- Under more spellings, a tree that resolves still does. -/
theorem Schema.exists_resolve_of_subset {options options' : Options} {root : Schema}
    (subset : options.spellings.keys ⊆ options'.spellings.keys)
    (resolved : ∃ r, root.resolve options = .ok r) : ∃ r', root.resolve options' = .ok r' := by
  rw [exists_resolve_iff] at resolved ⊢
  intro bs n walk
  obtain ⟨shallow, spelled⟩ := resolved bs n walk
  refine ⟨shallow, fun name mem missing => spelled name mem ?_⟩
  rw [Table.get?, lookup_eq_none] at missing ⊢
  exact fun known => missing (subset known)

/-! ### Compilations as functions of the typed form -/

/-- The typed form of a document. -/
def Schema.typed (options : Options) (root : Schema) : Except CompileError Typed :=
  (root.resolve options).map (·.root)

/-- The model of a document, given its typed form. -/
def Typed.model (options : Options) (t : Typed) : Except CompileError Model :=
  t.definitions.map fun objects =>
    let f := t.nodes.foldl (Findings.gather options) {}
    ⟨objects, f.includes, f.enums, f.hasEnum, f.hasVariant, Model.sourcesFor options.helpers f⟩

theorem Schema.compile_eq_bind (options : Options) (root : Schema) :
    root.compile options = root.typed options >>= Typed.model options := by
  rw [compile, typed]
  cases resolved : root.resolve options with
  | error e => rfl
  | ok r =>
    show (r.root.definitions >>= _) = Typed.model options r.root
    rw [Typed.model, Resolution.findings_eq resolved]
    cases r.root.definitions <;> rfl

/-- The typed form of a document depends on the names looked up in it. -/
theorem Schema.typed_congr {options options' : Options} {root : Schema}
    (agree : ∀ name, root.LooksUp options 0 name →
      options.spellings.get? name = options'.spellings.get? name) :
    root.typed options = root.typed options' := by
  have same := Typed.resolveNode_congr root agree .root {} {}
  rw [typed, typed, resolve, resolve]
  cases hp : Typed.resolveNode options .root 0 root {} with
  | error e =>
    rw [hp] at same
    rw [map_eq_error.1 same.symm]
  | ok p =>
    rw [hp] at same
    obtain ⟨p', hp', roots⟩ := map_eq_ok.1 same.symm
    rw [hp']
    exact congrArg Except.ok roots.symm

/-- What a model holds apart from the include directives and the support sources. -/
def Model.contents (m : Model) : List Definition × Table (List String) × Bool × Bool :=
  (m.objects, m.enums, m.hasEnum, m.hasVariant)

/-- Of the options, only the spellings enter these contents, and they only by the typed form. -/
theorem Typed.model_contents (options : Options) (t : Typed) :
    (t.model options).map Model.contents = t.definitions.map fun objects =>
      (objects, Table.putAll [] (t.nodes.filterMap registration?),
        t.nodes.any fun t => t.registration?.isSome, t.nodes.any isVariant) := by
  rw [model]
  cases t.definitions with
  | error e => rfl
  | ok objects =>
    have enums := Findings.enums_foldl options {} t.nodes
    have hasEnum := Findings.hasEnum_foldl options {} t.nodes
    have hasVariant := Findings.hasVariant_foldl options {} t.nodes
    rw [Bool.false_or] at hasEnum hasVariant
    simp only [Except.map, Model.contents, enums, hasEnum, hasVariant]

/-! ### Descriptors under two tables of spellings -/

namespace Schema

/-- A branch leads to a child whose descriptor is part of that of the node. -/
def Feeds (s : Schema) : Branch → Schema → Prop
  | .items, c => s.targetType = none ∧ s.usedItems = some c
  | .prefixItem i, c => s.targetType = none ∧ s.usedItems = none ∧ s.usedPrefixItems[i]? = some c
  | .alternative i, c => s.targetType = none ∧ s.usedOneOf[i]? = some c
  | .property _, _ => False

/-- The descriptor of a node depends on a name: the node looks it up, or a node below whose
descriptor becomes part of that of the node. -/
def Uses (s : Schema) (name : String) : Prop := ∃ bs n, Walk Feeds s bs n ∧ name ∈ n.lookups

theorem Uses.of_child {s c : Schema} {b : Branch} {name : String} (uses : c.Uses name)
    (feeds : s.Feeds b c) : s.Uses name := by
  obtain ⟨bs, n, walk, mem⟩ := uses
  exact ⟨b :: bs, n, .down feeds walk, mem⟩

theorem Feeds.usedChild {s c : Schema} {b : Branch} (feeds : s.Feeds b c) : s.UsedChild b c := by
  cases b with
  | items => exact feeds.2
  | prefixItem i => exact feeds.2.2
  | alternative i => exact feeds.2
  | property name => exact feeds.elim

end Schema

/-- A shape with items has no place for prefix items. -/
theorem Shape.of_some (s : Schema) (item : String) (elements elements' alternatives : List String) :
    Shape.of s (some item) elements alternatives =
      Shape.of s (some item) elements' alternatives := by
  unfold Shape.of
  split
  · rfl
  · split <;> simp_all

namespace Typed

/-- All typed forms of a node under both options have the same descriptor. -/
def DescribedAlike (options options' : Options) (s : Schema) : Prop :=
  ∀ {t t' : Typed}, t.IsFormOf options s → t'.IsFormOf options' s → t.descriptor = t'.descriptor

theorem item_descriptors_congr {s : Option Schema} {t t' : Option Typed}
    (each : ∀ c, s = some c → DescribedAlike options options' c)
    (form : Option.Rel (IsFormOf options) t s) (form' : Option.Rel (IsFormOf options') t' s) :
    t.map (·.descriptor) = t'.map (·.descriptor) := by
  cases form with
  | none =>
    cases form'
    rfl
  | some form =>
    cases form' with
    | some form' => exact congrArg some (each _ rfl form form')

theorem list_descriptors_congr {ss : List Schema} {ts ts' : List Typed}
    (each : ∀ s ∈ ss, DescribedAlike options options' s)
    (forms : List.Forall₂ (IsFormOf options) ts ss)
    (forms' : List.Forall₂ (IsFormOf options') ts' ss) :
    ts.map (·.descriptor) = ts'.map (·.descriptor) := by
  induction forms generalizing ts' with
  | nil =>
    cases forms'
    rfl
  | cons form _ ih =>
    cases forms' with
    | cons form' others =>
      rw [List.map_cons, List.map_cons, each _ List.mem_cons_self form form',
        ih (fun s mem => each s (List.mem_cons_of_mem _ mem)) others]

/-- The shapes of two typed forms are the same if the children that feed them are described
alike. -/
theorem shapeOf_congr {s : Schema} {t t' : Typed} (untargeted : s.targetType = none)
    (fed : ∀ b c, s.Feeds b c → DescribedAlike options options' c) (forms : t.Forms options s)
    (forms' : t'.Forms options' s) :
    shapeOf s t.items t.prefixItems t.oneOf = shapeOf s t'.items t'.prefixItems t'.oneOf := by
  have items := item_descriptors_congr (fun c hc => fed .items c ⟨untargeted, hc⟩) forms.items
    forms'.items
  have alternatives : ∀ c ∈ s.usedOneOf, DescribedAlike options options' c := by
    intro c mem
    obtain ⟨i, hi⟩ := List.mem_iff_getElem?.1 mem
    exact fed (.alternative i) c ⟨untargeted, hi⟩
  rw [shapeOf, shapeOf, items, list_descriptors_congr alternatives forms.oneOf forms'.oneOf]
  cases used : s.usedItems with
  | none =>
    have elements : ∀ c ∈ s.usedPrefixItems, DescribedAlike options options' c := by
      intro c mem
      obtain ⟨i, hi⟩ := List.mem_iff_getElem?.1 mem
      exact fed (.prefixItem i) c ⟨untargeted, used, hi⟩
    rw [list_descriptors_congr elements forms.prefixItems forms'.prefixItems]
  | some c =>
    have form := forms'.items
    rw [used] at form
    cases hitems : t'.items with
    | none =>
      rw [hitems] at form
      cases form
    | some item => exact Shape.of_some s _ _ _ _

/-- **The descriptor of a node depends on nothing but the spellings of the names that it uses.** -/
theorem describedAlike (s : Schema)
    (agree : ∀ name, s.Uses name → options.spellings.get? name = options'.spellings.get? name) :
    DescribedAlike options options' s := by
  induction s using Schema.induction with
  | step s ih =>
    intro t t' form form'
    have own := form.described
    have own' := form'.described
    cases untargeted : s.targetType with
    | some explicit =>
      rw [untargeted] at own own'
      exact own.symm.trans own'
    | none =>
      have fed : ∀ b c, s.Feeds b c → DescribedAlike options options' c :=
        fun b c feeds => ih b c feeds.usedChild.child
          fun name uses => agree name (uses.of_child feeds)
      have looked : ∀ name ∈ (shapeOf s t'.items t'.prefixItems t'.oneOf).names,
          options.spellings.get? name = options'.spellings.get? name := by
        rw [form'.names_eq untargeted]
        exact fun name mem => agree name ⟨[], s, .here s, mem⟩
      rw [untargeted] at own own'
      rw [shapeOf_congr untargeted fed form.forms form'.forms, Shape.descriptor_congr looked] at own
      exact Except.ok.inj (own.symm.trans own')

end Typed

/-! ### Overriding a spelling -/

/-- **Options act only where they are looked up.**  Include directives and support sources change
neither the error nor the definitions, enumerations and flags of a model.  Spellings that agree on
all names that a run looks up give the same model or the same error; and a spelling that is
overridden changes the descriptors of no other nodes than those that use its name. -/
theorem options_act_where_looked_up (options : Options) (root : Schema) :
    (∀ includes helpers, (root.compile { options with includes, helpers }).map Model.contents =
      (root.compile options).map Model.contents) ∧
    (∀ spellings : Spellings,
      (∀ name, root.LooksUp options 0 name →
        spellings.get? name = options.spellings.get? name) →
      root.compile { options with spellings } = root.compile options) ∧
    ∀ key spelling r, root.resolve options = .ok r →
      ∃ r', root.resolve { options with spellings := options.spellings.put key spelling } =
          .ok r' ∧
        ∀ bs t, Walk Typed.Child r.root bs t →
          ∃ t', Walk Typed.Child r'.root bs t' ∧ t'.schema = t.schema ∧
            (¬ t.schema.Uses key → t'.descriptor = t.descriptor) := by
  refine ⟨fun includes helpers => ?_, fun spellings agree => ?_, fun key spelling r resolved => ?_⟩
  · have same : root.typed { options with includes, helpers } = root.typed options :=
      Schema.typed_congr fun _ _ => rfl
    rw [Schema.compile_eq_bind, Schema.compile_eq_bind, same]
    cases root.typed options with
    | error e => rfl
    | ok t =>
      show (t.model _).map _ = (t.model _).map _
      rw [Typed.model_contents, Typed.model_contents]
  · have same : root.typed { options with spellings } = root.typed options :=
      (Schema.typed_congr fun name looked => (agree name looked).symm).symm
    rw [Schema.compile_eq_bind, Schema.compile_eq_bind, same]
    rfl
  · have subset : options.spellings.keys ⊆ (options.spellings.put key spelling).keys := by
      rw [Table.keys_put]
      split
      · exact List.Subset.refl _
      · exact List.subset_append_left _ _
    obtain ⟨r', resolved'⟩ :
        ∃ r', root.resolve { options with spellings := options.spellings.put key spelling } =
          .ok r' := Schema.exists_resolve_of_subset subset ⟨r, resolved⟩
    refine ⟨r', resolved', fun bs t walk => ?_⟩
    obtain ⟨n, used, form⟩ := (Resolution.isFormOf resolved).walk walk
    obtain ⟨t', walk', form'⟩ := (Resolution.isFormOf resolved').usedWalk used
    obtain rfl := form.schema_eq
    refine ⟨t', walk', form'.schema_eq, fun unused => ?_⟩
    refine (Typed.describedAlike t.schema (fun name uses => ?_) form form').symm
    have other : name ≠ key := fun same => unused (same ▸ uses)
    rw [Table.get?_put, if_neg other]

/-- An object with a list of texts and a count among its properties. -/
def bookcase : Schema :=
  { Schema.ofTypeName "object" with
    targetType := some "Bookcase"
    declaredFields := some ["titles", "width"]
    properties := [
      ("titles", { Schema.ofTypeName "array" with items := some (Schema.ofTypeName "string") }),
      ("width", Schema.ofTypeName "integer")] }

theorem bookcase_overridden :
    ∃ m r r' t t', bookcase.compile {} = .ok m ∧
      bookcase.compile { spellings := Spellings.default.put "number" "float" } = .ok m ∧
      bookcase.resolve {} = .ok r ∧
      bookcase.resolve { spellings := Spellings.default.put "string" "QString" } = .ok r' ∧
      Walk Typed.Child r.root [.property "width"] t ∧
      Walk Typed.Child r'.root [.property "width"] t' ∧ t'.descriptor = t.descriptor := by
  obtain ⟨m, compiled⟩ : ∃ m, bookcase.compile {} = .ok m := ⟨_, rfl⟩
  obtain ⟨r, t, resolved, child, own, looked⟩ : ∃ r t, bookcase.resolve {} = .ok r ∧
      r.root.Child (.property "width") t ∧ t.schema = Schema.ofTypeName "integer" ∧
      ∀ names ∈ r.root.nodes.map (·.schema.lookups), ∀ name ∈ names,
        (Spellings.default.put "number" "float").get? name = Spellings.default.get? name :=
    ⟨_, _, rfl, List.mem_of_getElem? (i := 1) rfl, rfl, by decide⟩
  have agree : ∀ name, bookcase.LooksUp {} 0 name →
      (Spellings.default.put "number" "float").get? name = Spellings.default.get? name := by
    intro name looksUp
    obtain ⟨bs, n, walk, mem⟩ := looksUp.exists_walk
    obtain ⟨u, walk', form⟩ := (Resolution.isFormOf resolved).usedWalk walk
    rw [← form.schema_eq] at mem
    exact looked _ (List.mem_map.2 ⟨u, Typed.mem_nodes.2 ⟨bs, walk'⟩, rfl⟩) name mem
  have unused : ¬ t.schema.Uses "string" := by
    rw [own]
    rintro ⟨bs, n, walk, mem⟩
    cases walk with
    | here => simp [Schema.lookups, Schema.ofTypeName] at mem
    | @down _ c _ b _ feeds _ =>
      cases b with
      | items => exact absurd (show none = some c from feeds.2) nofun
      | prefixItem i => exact absurd (show none = some c from feeds.2.2) nofun
      | alternative i => exact absurd (show none = some c from feeds.2) nofun
      | property name => exact feeds
  obtain ⟨-, same, overriding⟩ := options_act_where_looked_up {} bookcase
  obtain ⟨r', resolved', walks⟩ := overriding "string" "QString" r resolved
  obtain ⟨t', walk', -, descriptor⟩ := walks [.property "width"] t (.down child (.here t))
  exact ⟨m, r, r', t, t', compiled, (same _ agree).trans compiled, resolved, resolved',
    .down child (.here t), walk', descriptor unused⟩

end SchemaModel
