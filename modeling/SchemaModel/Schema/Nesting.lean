import SchemaModel.CompileError
import SchemaModel.Json.Basic

/-!
# How deep a document may nest

Every value inside a document has two depths.  Its raw depth is the number of steps from the root;
its node depth counts the steps from node to node, which depend on the slots that lead to it.  The
check walks the document with a list of the values still to be looked at and so needs no recursion
into it, however deep it nests.

* `Slot.Role` — what a value is, by the slots that lead to it;
* `Pending.children` — the values one step below a value;
* `Nesting.check` — refuses a document with a value too deep.
-/

namespace SchemaModel.Nesting

/-- The greatest node depth. -/
def maxNodeDepth : Nat := 128

/-- The greatest raw depth. -/
def maxRawDepth : Nat := 4 * maxNodeDepth

/-- What a value is, by the slots that lead to it. -/
inductive Role where
  | node
  | nodeList
  | nodeTable
  | literal
deriving DecidableEq, Repr

/-- The role of a member's value, and whether it lies one node deeper. -/
def Role.ofMember (role : Role) (key : String) : Role × Nat :=
  match role with
  | .node =>
    match key with
    | "items" => (.node, 1)
    | "prefixItems" | "oneOf" => (.nodeList, 0)
    | "properties" => (.nodeTable, 0)
    | _ => (.literal, 0)
  | .nodeTable => (.node, 1)
  | .nodeList | .literal => (.literal, 0)

/-- The role of an element, and whether it lies one node deeper. -/
def Role.ofElement : Role → Role × Nat
  | .nodeList => (.node, 1)
  | .node | .nodeTable | .literal => (.literal, 0)

/-- A value with its place, its role and its two depths. -/
structure Pending where
  value : Json
  location : Location
  role : Role
  nodeDepth : Nat
  rawDepth : Nat

namespace Pending

/-- The whole document. -/
def root (document : Json) : Pending := ⟨document, .root, .node, 0, 0⟩

/-- The value of a member. -/
def ofMember (p : Pending) (m : String × Json) : Pending :=
  let (role, deeper) := p.role.ofMember m.1
  ⟨m.2, p.location.key m.1, role, p.nodeDepth + deeper, p.rawDepth + 1⟩

/-- An element. -/
def ofElement (p : Pending) (v : Json) (i : Nat) : Pending :=
  let (role, deeper) := p.role.ofElement
  ⟨v, p.location.index i, role, p.nodeDepth + deeper, p.rawDepth + 1⟩

/-- The values one step below, in document order. -/
def children (p : Pending) : List Pending :=
  match p.value with
  | .object members => members.map p.ofMember
  | .array items => items.mapIdx fun i v => p.ofElement v i
  | _ => []

/-- The limit that a value breaks, the one on nodes first. -/
def violation? (p : Pending) : Option CompileError :=
  if maxNodeDepth < p.nodeDepth then some (.nestingTooDeep p.location maxNodeDepth)
  else if maxRawDepth < p.rawDepth then some (.nestingTooDeep p.location maxRawDepth)
  else none

/-- Number of values still to be looked at in a list. -/
def total : List Pending → Nat
  | [] => 0
  | p :: rest => p.value.size + total rest

theorem total_append (ps qs : List Pending) : total (ps ++ qs) = total ps + total qs := by
  induction ps with
  | nil => rw [List.nil_append, total, Nat.zero_add]
  | cons p rest ih => rw [List.cons_append, total, total, ih, Nat.add_assoc]

theorem total_reverse (ps : List Pending) : total ps.reverse = total ps := by
  induction ps with
  | nil => rfl
  | cons p rest ih =>
    rw [List.reverse_cons, total_append, ih, total, total, total, Nat.add_comm]
    rfl

theorem total_members (p : Pending) (ms : List (String × Json)) :
    total (ms.map p.ofMember) = Json.sizeOfMembers ms := by
  induction ms with
  | nil => rfl
  | cons m rest ih => rw [List.map_cons, total, ih, Json.sizeOfMembers]; rfl

theorem total_elements (p : Pending) (vs : List Json) (i : Nat) :
    total (vs.mapIdx fun j v => p.ofElement v (i + j)) = Json.sizeOfItems vs := by
  induction vs generalizing i with
  | nil => rfl
  | cons v rest ih =>
    have shift : (fun j v => p.ofElement v (i + (j + 1))) =
        fun j v => p.ofElement v (i + 1 + j) := by
      funext j v
      rw [Nat.add_comm j 1, Nat.add_assoc]
    rw [List.mapIdx_cons, total, shift, ih, Json.sizeOfItems]
    rfl

theorem total_children_lt (p : Pending) : total p.children < p.value.size := by
  unfold children
  split
  · rename_i ms h
    rw [h, Json.size, total_members]
    omega
  · rename_i vs h
    have count := total_elements p vs 0
    simp only [Nat.zero_add] at count
    rw [h, Json.size, count]
    omega
  · exact p.value.size_pos

end Pending

/-- Looks at the values of a list one after the other; the values below one that is not too deep
come next, last to first. -/
def checkAll : List Pending → Except CompileError Unit
  | [] => .ok ()
  | p :: rest =>
    match p.violation? with
    | some e => .error e
    | none => checkAll (p.children.reverse ++ rest)
termination_by pending => Pending.total pending
decreasing_by
  have h := p.total_children_lt
  rw [Pending.total_append, Pending.total_reverse, Pending.total]
  omega

/-- Refuses a document in which a value lies too deep. -/
def check (document : Json) : Except CompileError Unit := checkAll [Pending.root document]

end SchemaModel.Nesting
