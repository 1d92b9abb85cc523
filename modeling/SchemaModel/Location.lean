/-!
# Locations inside a document

A location is the list of steps from the root to a value: a key of an object or an index of an
array.  Its text names the steps in order, `$['properties']['x']['oneOf'][1]`.

* `Location.key`, `Location.index` — one step further;
* `Location.depth` — the number of steps;
* `Location.text` — the written form.
-/

namespace SchemaModel

/-- One step into a value. -/
inductive Location.Step where
  | key (name : String)
  | index (i : Nat)
deriving DecidableEq, Repr

/-- The steps from the root to a value. -/
structure Location where
  steps : List Location.Step
deriving DecidableEq, Repr

namespace Location

/-- The whole document. -/
def root : Location := ⟨[]⟩

/-- The value at a key. -/
def key (l : Location) (name : String) : Location := ⟨l.steps ++ [.key name]⟩

/-- The element at an index. -/
def index (l : Location) (i : Nat) : Location := ⟨l.steps ++ [.index i]⟩

/-- The number of steps. -/
def depth (l : Location) : Nat := l.steps.length

/-- The written form of a step; a key stands as it is, without escapes. -/
def Step.text : Step → String
  | .key name => "['" ++ name ++ "']"
  | .index i => "[" ++ toString i ++ "]"

/-- The written form of a location. -/
def text (l : Location) : String := "$" ++ String.join (l.steps.map Step.text)

theorem depth_key (l : Location) (name : String) : (l.key name).depth = l.depth + 1 := by
  simp [depth, key]

theorem depth_index (l : Location) (i : Nat) : (l.index i).depth = l.depth + 1 := by
  simp [depth, index]

end Location

end SchemaModel
