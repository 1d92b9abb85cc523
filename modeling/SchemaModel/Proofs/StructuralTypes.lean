import SchemaModel.Proofs.LookUps
import SchemaModel.Proofs.Separated

/-!
# Descriptors and structural types

A descriptor is a text, but what it says is a tree: plain spellings, and generic types with their
arguments.  As long as no explicit type is part of it, and no spelling is empty or holds an angle
bracket or a comma, the tree can be told from the text: a spelling ends where one of these
characters stands, and the arguments end at the bracket that closes them.  So nodes have the same
descriptor only if they have the same structure.

* `StructuralType` — the trees; `Rules.structuralType?` — that of a node;
* `Schema.Untargeted` — no explicit type is part of the descriptor of a node;
* `StructuralType.IsWritten` — the descriptor of a tree;
* `Rules.exists_structuralType` — descriptors by the rules are those of trees;
* `StructuralType.delimited` — the tree can be told from its descriptor;
* `descriptors_identify_structural_types` — equal descriptors are those of equal trees.
-/

namespace SchemaModel

/-- The generic types of descriptors. -/
inductive Generic where
  | array
  | tuple
  | variant
deriving DecidableEq, Repr

/-- The name under which a generic type is looked up. -/
def Generic.name : Generic → String
  | .array => "array"
  | .tuple => "tuple"
  | .variant => "variant"

/-- The structure of a type: a spelling, or a generic type with its arguments. -/
inductive StructuralType where
  | leaf (spelling : String)
  | applied (generic : Generic) (arguments : List StructuralType)

theorem StructuralType.induction {P : StructuralType → Prop} (leaf : ∀ spelling, P (leaf spelling))
    (applied : ∀ generic arguments, (∀ τ ∈ arguments, P τ) → P (applied generic arguments)) :
    ∀ τ, P τ
  | .leaf spelling => leaf spelling
  | .applied generic arguments => applied generic arguments fun τ _ => induction leaf applied τ

namespace Rules

mutual

/-- The structural type of a node, unless an explicit type is part of its descriptor. -/
def structuralType? (spellings : Spellings) : Schema → Option StructuralType
  | ⟨type, targetType, _, _, _, items, prefixItems, oneOf, _, _, _⟩ =>
    match targetType, type, items, prefixItems, oneOf with
    | some _, _, _, _, _ => none
    | none, .choice names, _, _, _ =>
      (names.mapM spellings.get?).map fun leaves => .applied .variant (leaves.map .leaf)
    | none, .name "array", some item, _, _ =>
      (structuralType? spellings item).map fun τ => .applied .array [τ]
    | none, .name "array", none, some elements, _ =>
      (structuralTypes? spellings elements).map (.applied .tuple)
    | none, .name "object", _, _, some alternatives =>
      (structuralTypes? spellings alternatives).map (.applied .variant)
    | none, .name n, _, _, _ => (spellings.get? n).map .leaf
termination_by structural s => s

/-- The structural types of nodes, from left to right. -/
def structuralTypes? (spellings : Spellings) : List Schema → Option (List StructuralType)
  | [] => some []
  | s :: rest => do
    return (← structuralType? spellings s) :: (← structuralTypes? spellings rest)
termination_by structural ss => ss

end

end Rules

theorem TypeExpr.isName_iff {type : TypeExpr} {n : String} :
    type.isName n = true ↔ type = .name n := by
  cases type <;> simp [isName, single?]

namespace Schema

/-- A node that is used where nodes may stand is one of those that stand there. -/
theorem exists_nodes_of_used {used : Bool} {nodes : Option (List Schema)} {i : Nat} {c : Schema}
    (h : (if used then nodes.getD [] else [])[i]? = some c) :
    used = true ∧ ∃ ns, nodes = some ns ∧ c ∈ ns := by
  cases used with
  | false => cases h
  | true =>
    cases nodes with
    | none => cases h
    | some ns => exact ⟨rfl, ns, rfl, List.mem_of_getElem? h⟩

/-- A node whose descriptor is part of that of another is its items, a prefix item beside no items,
or an alternative. -/
theorem Feeds.shape {s c : Schema} {b : Branch} (feeds : s.Feeds b c) :
    s.targetType = none ∧
      ((s.type = .name "array" ∧ s.items = some c) ∨
        (s.type = .name "array" ∧ s.items = none ∧ ∃ nodes, s.prefixItems = some nodes ∧ c ∈ nodes) ∨
        (s.type = .name "object" ∧ ∃ nodes, s.oneOf = some nodes ∧ c ∈ nodes)) := by
  cases b with
  | items =>
    obtain ⟨untargeted, used⟩ := feeds
    rw [usedItems] at used
    split_ifs at used with array
    exact ⟨untargeted, .inl ⟨TypeExpr.isName_iff.1 array, used⟩⟩
  | prefixItem i =>
    obtain ⟨untargeted, unused, used⟩ := feeds
    obtain ⟨array, nodes⟩ := exists_nodes_of_used used
    rw [usedItems, if_pos array] at unused
    exact ⟨untargeted, .inr (.inl ⟨TypeExpr.isName_iff.1 array, unused, nodes⟩)⟩
  | alternative i =>
    obtain ⟨untargeted, used⟩ := feeds
    obtain ⟨object, nodes⟩ := exists_nodes_of_used used
    exact ⟨untargeted, .inr (.inr ⟨TypeExpr.isName_iff.1 object, nodes⟩)⟩
  | property name => exact feeds.elim

/-- No node whose descriptor is part of that of the node has an explicit type. -/
def Untargeted (s : Schema) : Prop := ∀ bs n, Walk Feeds s bs n → n.targetType = none

theorem Untargeted.own {s : Schema} (h : s.Untargeted) : s.targetType = none := h [] s (.here s)

theorem Untargeted.fed {s c : Schema} {b : Branch} (h : s.Untargeted) (feeds : s.Feeds b c) :
    c.Untargeted := fun bs n walk => h (b :: bs) n (.down feeds walk)

end Schema

/-! ### The descriptors of structural types -/

/-- The descriptor of a structural type: the spelling of a name, or the spelling of the generic type
with the descriptors of the arguments. -/
inductive StructuralType.IsWritten (spellings : Spellings) : StructuralType → String → Prop
  | leaf {name spelling : String} (spelled : spellings.get? name = some spelling) :
      IsWritten spellings (.leaf spelling) spelling
  | applied {generic : Generic} {arguments : List StructuralType} {spelling : String}
      {texts : List String} (spelled : spellings.get? generic.name = some spelling)
      (written : List.Forall₂ (IsWritten spellings) arguments texts) :
      IsWritten spellings (.applied generic arguments) (Shape.apply spelling texts)

/-- A structural type has one descriptor. -/
theorem StructuralType.IsWritten.unique {spellings : Spellings} {τ : StructuralType} {d d' : String}
    (h : τ.IsWritten spellings d) (h' : τ.IsWritten spellings d') : d = d' := by
  induction τ using StructuralType.induction generalizing d d' with
  | leaf spelling =>
    cases h
    cases h'
    rfl
  | applied generic arguments ih =>
    obtain ⟨⟩ | ⟨spelled, written⟩ := h
    obtain ⟨⟩ | ⟨spelled', written'⟩ := h'
    cases spelled.symm.trans spelled'
    rw [Forall₂.unique_right written written' fun τ mem _ _ => ih τ mem]

namespace Rules

open StructuralType

variable {spellings : Spellings}

theorem applied?_eq_some_iff {generic d : String} {texts : Option (List String)} :
    applied? spellings generic texts = some d ↔ ∃ spelling ts,
      spellings.get? generic = some spelling ∧ texts = some ts ∧ Shape.apply spelling ts = d := by
  rw [applied?]
  cases spellings.get? generic <;> cases texts <;> simp [Shape.apply]

theorem isWritten_leaves {names leaves : List String}
    (h : names.mapM spellings.get? = some leaves) :
    List.Forall₂ (IsWritten spellings) (leaves.map .leaf) leaves := by
  induction names generalizing leaves with
  | nil =>
    cases h
    exact .nil
  | cons name rest ih =>
    rw [List.mapM_cons] at h
    obtain ⟨spelling, spelled, h⟩ := Option.bind_eq_some_iff.1 h
    obtain ⟨others, hothers, ⟨⟩⟩ := Option.bind_eq_some_iff.1 h
    exact .cons (.leaf spelled) (ih hothers)

/-- A node has a structural type, and a text is the descriptor of it. -/
def IsTyped (spellings : Spellings) (s : Schema) (d : String) : Prop :=
  ∃ τ, structuralType? spellings s = some τ ∧ τ.IsWritten spellings d

theorem exists_structuralTypes {ss : List Schema} {ds : List String}
    (h : descriptors? spellings ss = some ds)
    (each : ∀ s ∈ ss, ∀ d, descriptor? spellings s = some d → IsTyped spellings s d) :
    ∃ τs, structuralTypes? spellings ss = some τs ∧ List.Forall₂ (IsWritten spellings) τs ds := by
  induction ss generalizing ds with
  | nil =>
    cases h
    exact ⟨[], rfl, .nil⟩
  | cons s rest ih =>
    obtain ⟨d, hd, h⟩ := Option.bind_eq_some_iff.1 h
    obtain ⟨others, hothers, ⟨⟩⟩ := Option.bind_eq_some_iff.1 h
    obtain ⟨τ, hτ, written⟩ := each s List.mem_cons_self d hd
    obtain ⟨τs, hτs, writtens⟩ := ih hothers fun s mem => each s (List.mem_cons_of_mem _ mem)
    refine ⟨τ :: τs, ?_, .cons written writtens⟩
    rw [structuralTypes?, hτ, hτs]
    rfl

/-- **A descriptor by the rules is that of a structural type**, unless an explicit type is part of
it. -/
theorem exists_structuralType {s : Schema} {d : String} (h : descriptor? spellings s = some d)
    (untargeted : s.Untargeted) : IsTyped spellings s d := by
  induction s using Schema.induction generalizing d with
  | step s ih =>
    have fed : ∀ b c, s.Feeds b c → ∀ d, descriptor? spellings c = some d →
        IsTyped spellings c d :=
      fun b c feeds d hd => ih b c feeds.usedChild.child hd (untargeted.fed feeds)
    have own := untargeted.own
    clear ih untargeted
    cases s
    unfold descriptor? at h
    split at h
    case h_1 => cases own
    case h_2 names =>
      obtain ⟨spelling, leaves, spelled, hleaves, rfl⟩ := applied?_eq_some_iff.1 h
      refine ⟨.applied .variant (leaves.map .leaf), ?_, .applied spelled (isWritten_leaves hleaves)⟩
      rw [structuralType?, hleaves]
      rfl
    case h_3 item =>
      obtain ⟨spelling, texts, spelled, htexts, rfl⟩ := applied?_eq_some_iff.1 h
      obtain ⟨d, hd, rfl⟩ := Option.map_eq_some_iff.1 htexts
      obtain ⟨τ, hτ, written⟩ := fed .items item ⟨rfl, rfl⟩ d hd
      refine ⟨.applied .array [τ], ?_, .applied spelled (.cons written .nil)⟩
      rw [structuralType?, hτ]
      rfl
    case h_4 elements =>
      obtain ⟨spelling, texts, spelled, htexts, rfl⟩ := applied?_eq_some_iff.1 h
      obtain ⟨τs, hτs, written⟩ := exists_structuralTypes htexts (fun c mem => by
        obtain ⟨i, hi⟩ := List.mem_iff_getElem?.1 mem
        exact fed (.prefixItem i) c ⟨rfl, rfl, hi⟩)
      refine ⟨.applied .tuple τs, ?_, .applied spelled written⟩
      rw [structuralType?, hτs]
      rfl
    case h_5 alternatives =>
      obtain ⟨spelling, texts, spelled, htexts, rfl⟩ := applied?_eq_some_iff.1 h
      obtain ⟨τs, hτs, written⟩ := exists_structuralTypes htexts (fun c mem => by
        obtain ⟨i, hi⟩ := List.mem_iff_getElem?.1 mem
        exact fed (.alternative i) c ⟨rfl, hi⟩)
      refine ⟨.applied .variant τs, ?_, .applied spelled written⟩
      rw [structuralType?, hτs]
      rfl
    case h_6 name array tuple object =>
      refine ⟨.leaf d, ?_, .leaf h⟩
      rw [structuralType?, h]
      · rfl
      all_goals assumption

theorem exists_of_structuralTypes {ss : List Schema} {τs : List StructuralType}
    (h : structuralTypes? spellings ss = some τs) : ∀ s ∈ ss, ∃ τ, structuralType? spellings s = some τ := by
  induction ss generalizing τs with
  | nil => exact List.forall_mem_nil _
  | cons s rest ih =>
    obtain ⟨τ, hτ, h⟩ := Option.bind_eq_some_iff.1 h
    obtain ⟨others, hothers, -⟩ := Option.bind_eq_some_iff.1 h
    exact List.forall_mem_cons.2 ⟨⟨τ, hτ⟩, ih hothers⟩

/-- **Nodes with a structural type are untargeted.** -/
theorem untargeted_of_structuralType? {s : Schema} {τ : StructuralType}
    (h : structuralType? spellings s = some τ) : s.Untargeted := by
  have own : ∀ {s : Schema} {τ}, structuralType? spellings s = some τ → s.targetType = none := by
    rintro ⟨_, _ | _, _, _, _, _, _, _, _, _, _⟩ τ h
    · rfl
    · cases h
  have fed : ∀ {s : Schema} {b c τ}, structuralType? spellings s = some τ → s.Feeds b c →
      ∃ τ, structuralType? spellings c = some τ := by
    intro s b c τ h feeds
    obtain ⟨untargeted, shape⟩ := feeds.shape
    cases s
    obtain rfl := untargeted
    rcases shape with ⟨rfl, rfl⟩ | ⟨rfl, rfl, nodes, rfl, mem⟩ | ⟨rfl, nodes, rfl, mem⟩
    · rw [structuralType?] at h
      obtain ⟨υ, hυ, -⟩ := Option.map_eq_some_iff.1 h
      exact ⟨υ, hυ⟩
    · rw [structuralType?] at h
      obtain ⟨τs, hτs, -⟩ := Option.map_eq_some_iff.1 h
      exact exists_of_structuralTypes hτs c mem
    · rw [structuralType?] at h
      obtain ⟨τs, hτs, -⟩ := Option.map_eq_some_iff.1 h
      exact exists_of_structuralTypes hτs c mem
  intro bs n walk
  induction walk generalizing τ with
  | here s => exact own h
  | down feeds _ ih =>
    obtain ⟨υ, hυ⟩ := fed h feeds
    exact ih hυ

end Rules

/-! ### Structural types read back -/

/-- No spelling is empty or holds an angle bracket or a comma, and the generic types have different
ones. -/
structure Spellings.IsUnambiguous (spellings : Spellings) : Prop where
  nonempty : ∀ name spelling, spellings.get? name = some spelling → spelling ≠ ""
  plain : ∀ name spelling, spellings.get? name = some spelling →
    '<' ∉ spelling.toList ∧ '>' ∉ spelling.toList ∧ ',' ∉ spelling.toList
  distinct : ∀ (generic generic' : Generic) (spelling : String),
    spellings.get? generic.name = some spelling → spellings.get? generic'.name = some spelling →
      generic = generic'

theorem Spellings.default_isUnambiguous : default.IsUnambiguous := by
  have among : ∀ {name spelling}, default.get? name = some spelling → (name, spelling) ∈ default :=
    fun found => mem_of_lookup found
  refine ⟨?_, ?_, ?_⟩
  · have each : ∀ e ∈ default, e.2 ≠ "" := by decide
    exact fun name spelling found => each _ (among found)
  · have each : ∀ e ∈ default, '<' ∉ e.2.toList ∧ '>' ∉ e.2.toList ∧ ',' ∉ e.2.toList := by decide
    exact fun name spelling found => each _ (among found)
  · intro generic generic' spelling found found'
    have different : default.get? generic.name = default.get? generic'.name →
        generic = generic' := by
      cases generic <;> cases generic' <;> decide
    exact different (found.trans found'.symm)

namespace StructuralType

/-- Whether a character can stand in a spelling. -/
def inSpelling (c : Char) : Bool := c ≠ '<' && c ≠ '>' && c ≠ ','

/-- What may follow a descriptor: nothing, a comma or a closing bracket. -/
def Follows (rest : List Char) : Prop := ∀ c, rest.head? = some c → c = ',' ∨ c = '>'

theorem follows_separator (rest : List Char) : Follows (", ".toList ++ rest) := by
  rintro c ⟨⟩
  exact .inl rfl

theorem follows_bracket (rest : List Char) : Follows ('>' :: rest) := by
  rintro c ⟨⟩
  exact .inr rfl

theorem toList_apply (spelling : String) (texts : List String) (rest : List Char) :
    (Shape.apply spelling texts).toList ++ rest =
      spelling.toList ++ '<' :: ((", ".intercalate texts).toList ++ '>' :: rest) := by
  simp [Shape.apply]

variable {spellings : Spellings} (unambiguous : spellings.IsUnambiguous)

include unambiguous

/-- A spelling ends where a character stands that is in none. -/
theorem eq_of_spelled {name name' spelling spelling' : String} {rest rest' : List Char}
    (spelled : spellings.get? name = some spelling)
    (spelled' : spellings.get? name' = some spelling')
    (stops : ∀ c, rest.head? = some c → inSpelling c = false)
    (stops' : ∀ c, rest'.head? = some c → inSpelling c = false)
    (same : spelling.toList ++ rest = spelling'.toList ++ rest') :
    spelling = spelling' ∧ rest = rest' := by
  have goes : ∀ {name spelling : String}, spellings.get? name = some spelling →
      ∀ c ∈ spelling.toList, inSpelling c = true := by
    intro name spelling spelled c mem
    obtain ⟨opening, closing, comma⟩ := unambiguous.plain name spelling spelled
    have other : ∀ d, d ∉ spelling.toList → c ≠ d := fun d absent equal => absent (equal ▸ mem)
    simp [inSpelling, other _ opening, other _ closing, other _ comma]
  obtain ⟨texts, rests⟩ := eq_of_stops (goes spelled) (goes spelled') stops stops' same
  exact ⟨String.ext texts, rests⟩

theorem opens_of_isWritten {τ : StructuralType} {d : String} (h : τ.IsWritten spellings d) :
    ∃ c cs, d.toList = c :: cs ∧ c ≠ '>' := by
  have begins : ∀ {name spelling : String}, spellings.get? name = some spelling →
      ∃ c cs, spelling.toList = c :: cs ∧ c ≠ '>' := by
    intro name spelling spelled
    have closing := (unambiguous.plain name spelling spelled).2.1
    cases shape : spelling.toList with
    | nil => exact absurd (String.ext shape) (unambiguous.nonempty name spelling spelled)
    | cons c cs =>
      rw [shape] at closing
      exact ⟨c, cs, rfl, (List.ne_of_not_mem_cons closing).symm⟩
  cases h with
  | leaf spelled => exact begins spelled
  | @applied generic arguments spelling texts spelled written =>
    obtain ⟨c, cs, shape, other⟩ := begins spelled
    have goesOn := toList_apply spelling texts []
    rw [List.append_nil, shape, List.cons_append] at goesOn
    exact ⟨c, _, goesOn, other⟩

/-- **The structure of a type can be told from its descriptor** and from what follows it there. -/
theorem delimited (τ : StructuralType) : Delimited Follows (IsWritten spellings) τ := by
  have stops : ∀ {rest}, Follows rest → ∀ c, rest.head? = some c → inSpelling c = false := by
    intro rest follows c head
    rcases follows c head with rfl | rfl <;> rfl
  have bracket : ∀ {rest}, ∀ c, ('<' :: rest).head? = some c → inSpelling c = false := by
    rintro rest c ⟨⟩
    rfl
  have unfollowed : ∀ {rest}, ¬ Follows ('<' :: rest) := by
    intro rest follows
    rcases follows '<' rfl with h | h <;> cases h
  induction τ using StructuralType.induction with
  | leaf spelling =>
    rintro υ s t rest rest' ⟨spelled⟩ written' follows follows' same
    cases written' with
    | leaf spelled' =>
      obtain ⟨rfl, rests⟩ :=
        eq_of_spelled unambiguous spelled spelled' (stops follows) (stops follows') same
      exact ⟨rfl, rests⟩
    | applied spelled' written' =>
      rw [toList_apply] at same
      obtain ⟨-, rfl⟩ := eq_of_spelled unambiguous spelled spelled' (stops follows) bracket same
      exact absurd follows unfollowed
  | applied generic arguments ih =>
    rintro υ s t rest rest' written written' follows follows' same
    obtain ⟨⟩ | ⟨spelled, written⟩ := written
    rw [toList_apply] at same
    cases written' with
    | leaf spelled' =>
      obtain ⟨-, rfl⟩ := eq_of_spelled unambiguous spelled spelled' bracket (stops follows') same
      exact absurd follows' unfollowed
    | applied spelled' written' =>
      rw [toList_apply] at same
      obtain ⟨rfl, inner⟩ := eq_of_spelled unambiguous spelled spelled' bracket bracket same
      obtain rfl := unambiguous.distinct _ _ _ spelled spelled'
      obtain ⟨rfl, rests⟩ := eq_of_separated follows_separator follows_bracket
        (fun rest rest' => by rintro ⟨⟩) (fun _ _ => opens_of_isWritten unambiguous) written
        written' ih (List.cons.inj inner).2
      exact ⟨rfl, rests⟩

end StructuralType

/-- **Descriptors identify structural types.**  If the spellings are unambiguous, as the default ones
are, every node of a resolved document that no explicit type enters has a structural type, and of two
such nodes, in one document or in two, the descriptors are equal exactly if these are. -/
theorem descriptors_identify_structural_types :
    Spellings.default.IsUnambiguous ∧
    ∀ (options : Options) (root root' : Schema) (r r' : Resolution),
      options.spellings.IsUnambiguous → root.resolve options = .ok r →
      root'.resolve options = .ok r' →
      ∀ bs bs' t t', Walk Typed.Child r.root bs t → Walk Typed.Child r'.root bs' t' →
        t.schema.Untargeted → t'.schema.Untargeted →
        ∃ τ τ', Rules.structuralType? options.spellings t.schema = some τ ∧
          Rules.structuralType? options.spellings t'.schema = some τ' ∧
          (t.descriptor = t'.descriptor ↔ τ = τ') := by
  refine ⟨Spellings.default_isUnambiguous, ?_⟩
  intro options root root' r r' unambiguous resolved resolved' bs bs' t t' walk walk' untargeted
    untargeted'
  have typed : ∀ {root : Schema} {r : Resolution} {bs : List Branch} {t : Typed},
      root.resolve options = .ok r → Walk Typed.Child r.root bs t → t.schema.Untargeted →
      Rules.IsTyped options.spellings t.schema t.descriptor := by
    intro root r bs t resolved walk untargeted
    obtain ⟨n, -, form⟩ := (Resolution.isFormOf resolved).walk walk
    obtain rfl := form.schema_eq
    exact Rules.exists_structuralType form.descriptor_eq untargeted
  obtain ⟨τ, hτ, written⟩ := typed resolved walk untargeted
  obtain ⟨τ', hτ', written'⟩ := typed resolved' walk' untargeted'
  refine ⟨τ, τ', hτ, hτ', ?_, ?_⟩
  · intro same
    have read : τ = τ' ∧ ([] : List Char) = [] := by
      refine τ.delimited unambiguous written written' ?_ ?_ (by rw [same])
      · exact fun c head => nomatch head
      · exact fun c head => nomatch head
    exact read.1
  · rintro rfl
    exact written.unique written'

/-- An array of alternatives of which the first is an empty tuple. -/
def Schema.cells (second : Schema) : Schema :=
  { ofTypeName "array" with
    items := some { ofTypeName "object" with
      oneOf := some [{ ofTypeName "array" with prefixItems := some [] }, second] } }

/-- A choice between names is described like alternatives of these names, and not like a tuple. -/
theorem cells_descriptors :
    let names := { Schema.ofTypeName "" with type := .choice ["integer", "string"] }
    let nodes := [Schema.ofTypeName "integer", Schema.ofTypeName "string"]
    let alternatives := { Schema.ofTypeName "object" with oneOf := some nodes }
    let tuple := { Schema.ofTypeName "array" with prefixItems := some nodes }
    ∃ r r' r'', (Schema.cells names).resolve {} = .ok r ∧
      (Schema.cells alternatives).resolve {} = .ok r' ∧
      (Schema.cells tuple).resolve {} = .ok r'' ∧
      r.root.descriptor = r'.root.descriptor ∧ r.root.descriptor ≠ r''.root.descriptor := by
  intro names nodes alternatives tuple
  obtain ⟨r, resolved⟩ : ∃ r, (Schema.cells names).resolve {} = .ok r := ⟨_, rfl⟩
  obtain ⟨r', resolved'⟩ : ∃ r, (Schema.cells alternatives).resolve {} = .ok r := ⟨_, rfl⟩
  obtain ⟨r'', resolved''⟩ : ∃ r, (Schema.cells tuple).resolve {} = .ok r := ⟨_, rfl⟩
  have root := (Resolution.isFormOf resolved).schema_eq
  have root' := (Resolution.isFormOf resolved').schema_eq
  have root'' := (Resolution.isFormOf resolved'').schema_eq
  let leaves : List StructuralType := [.leaf "int64_t", .leaf "std::string"]
  let cells (second : StructuralType) : StructuralType :=
    .applied .array [.applied .variant [.applied .tuple [], second]]
  have typed : Rules.structuralType? Spellings.default (Schema.cells names) =
      some (cells (.applied .variant leaves)) := rfl
  have typed' : Rules.structuralType? Spellings.default (Schema.cells alternatives) =
      some (cells (.applied .variant leaves)) := rfl
  have typed'' : Rules.structuralType? Spellings.default (Schema.cells tuple) =
      some (cells (.applied .tuple leaves)) := rfl
  rw [← root] at typed
  rw [← root'] at typed'
  rw [← root''] at typed''
  have untargeted := Rules.untargeted_of_structuralType? typed
  obtain ⟨unambiguous, identify⟩ := descriptors_identify_structural_types
  refine ⟨r, r', r'', resolved, resolved', resolved'', ?_, ?_⟩
  · obtain ⟨τ, τ', hτ, hτ', same⟩ := identify {} _ _ r r' unambiguous resolved resolved' [] [] _ _
      (.here _) (.here _) untargeted (Rules.untargeted_of_structuralType? typed')
    cases typed.symm.trans hτ
    cases typed'.symm.trans hτ'
    exact same.2 rfl
  · obtain ⟨τ, τ'', hτ, hτ'', same⟩ := identify {} _ _ r r'' unambiguous resolved resolved'' [] []
      _ _ (.here _) (.here _) untargeted (Rules.untargeted_of_structuralType? typed'')
    cases typed.symm.trans hτ
    cases typed''.symm.trans hτ''
    exact same.not.2 nofun

end SchemaModel
