import SchemaModel.Options

/-!
# What a document needs besides its types

Resolving a document also finds its enumerations, the include directives of its descriptors and
whether it needs the support sources for enumerations and variants.

* `Findings` — what has been found so far;
* `Findings.addEnum`, `Findings.addVariant`, `Findings.addIncludes` — what a node adds;
* `insertAscending` — insertion into an ascending list without repetition.
-/

namespace SchemaModel

/-- Inserts a text into an ascending list, unless it is there already. -/
def insertAscending (s : String) : List String → List String
  | [] => [s]
  | t :: rest =>
    if s < t then s :: t :: rest
    else if s = t then t :: rest
    else t :: insertAscending s rest

theorem mem_insertAscending {s t : String} {ts : List String} :
    t ∈ insertAscending s ts ↔ t = s ∨ t ∈ ts := by
  induction ts with
  | nil => simp [insertAscending]
  | cons u rest ih =>
    unfold insertAscending
    split
    · simp
    · split
      · rename_i h
        simp [h]
      · rw [List.mem_cons, ih, List.mem_cons, or_left_comm]

/-- What has been found so far.  Enumerations keep the place of their first registration and the
values of their last; include directives are in ascending order. -/
structure Findings where
  enums : Table (List String) := []
  includes : List String := []
  hasEnum : Bool := false
  hasVariant : Bool := false
deriving DecidableEq, Repr

namespace Findings

/-- Adds an include directive. -/
def addInclude (f : Findings) (directive : String) : Findings :=
  { f with includes := insertAscending directive f.includes }

/-- Adds the include directives of a descriptor. -/
def addIncludes (f : Findings) (includes : Includes) (descriptor : String) : Findings :=
  (includes.matching descriptor).foldl addInclude f

/-- Registers an enumeration. -/
def addEnum (f : Findings) (helpers : Helpers) (descriptor : String) (values : List String) :
    Findings :=
  { f with enums := f.enums.put descriptor values, hasEnum := true }.addInclude
    helpers.enumInclude

/-- Registers the use of a variant. -/
def addVariant (f : Findings) (helpers : Helpers) : Findings :=
  { f with hasVariant := true }.addInclude helpers.variantInclude

end Findings

end SchemaModel
