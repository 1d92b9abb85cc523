import SchemaModel.Proofs.Acceptance

/-!
# The texts of error paths

The text of a path is that of its first step with those of the others behind it, an index in
brackets and a name behind a dot.  So the text of an error that is moved behind branches begins with
the texts of the branches, and what the path of the error itself adds is its own text, behind a dot
unless it begins with an index.

* `DecodeError.continued` — how the text of a path goes on behind that of another one;
* `DecodeError.pathText_append` — the text of a path in two parts;
* `Branch.pathText`, `DecodeError.pathText_flatMap_steps` — the text of a branch, and of several;
* `DecodeError.message_behind` — the message of an error that has been moved.
-/

namespace SchemaModel

namespace DecodeError

/-- How the text of a path goes on behind that of another one: an index stands there as it is, and
anything else behind a dot. -/
def continued : List PathStep → String
  | [] => ""
  | .index i :: rest => pathText (.index i :: rest)
  | path => "." ++ pathText path

theorem continued_eq_join (path : List PathStep) :
    continued path = String.join (path.map (PathStep.text false)) := by
  cases path with
  | nil => rfl
  | cons s rest =>
    rw [List.map_cons, String.join_cons]
    cases s with
    | key name => simp [continued, pathText, PathStep.text, String.append_assoc]
    | index i => rfl
    | unknown =>
      rw [continued, pathText, ← String.append_assoc]
      · rfl
      · nofun
      · nofun

/-- **The text of a path that goes on.** -/
theorem pathText_append {path : List PathStep} (nonempty : path ≠ []) (further : List PathStep) :
    pathText (path ++ further) = pathText path ++ continued further := by
  cases path with
  | nil => exact absurd rfl nonempty
  | cons s rest =>
    rw [continued_eq_join, List.cons_append, pathText, pathText, List.map_append,
      String.join_append, String.append_assoc]

end DecodeError

/-- The text of a branch in the path of an error. -/
def Branch.pathText : Branch → String
  | .items => "items"
  | .prefixItem i => "prefixItems[" ++ toString i ++ "]"
  | .alternative i => "oneOf[" ++ toString i ++ "]"
  | .property name => "properties." ++ name

namespace DecodeError

theorem pathText_steps (b : Branch) :
    pathText (b.steps.map PathStep.ofStep) = b.pathText := by
  cases b with
  | items => rfl
  | prefixItem i | alternative i =>
    simp [Branch.steps, Branch.pathText, pathText, PathStep.text, PathStep.ofStep,
      ← String.append_assoc]
  | property name =>
    simp [Branch.steps, Branch.pathText, pathText, PathStep.text, PathStep.ofStep,
      ← String.append_assoc]

/-- Branches one after another are parted by dots, since the slot of each is a name. -/
theorem pathText_flatMap_steps (b : Branch) (bs : List Branch) :
    pathText (((b :: bs).flatMap Branch.steps).map PathStep.ofStep) =
      ".".intercalate ((b :: bs).map Branch.pathText) := by
  induction bs generalizing b with
  | nil =>
    rw [List.flatMap_cons, List.flatMap_nil, List.append_nil, pathText_steps, List.map_singleton,
      String.intercalate_singleton]
  | cons c bs ih =>
    have named : ∃ name rest,
        ((c :: bs).flatMap Branch.steps).map PathStep.ofStep = .key name :: rest := by
      rw [List.flatMap_cons, Branch.steps_eq]
      exact ⟨_, _, rfl⟩
    have dotted : continued (((c :: bs).flatMap Branch.steps).map PathStep.ofStep) =
        "." ++ pathText (((c :: bs).flatMap Branch.steps).map PathStep.ofStep) := by
      obtain ⟨name, rest, shape⟩ := named
      rw [shape]
      rfl
    have nonempty : b.steps.map PathStep.ofStep ≠ [] := by
      rw [Branch.steps_eq]
      exact List.cons_ne_nil _ _
    rw [List.flatMap_cons, List.map_append, pathText_append nonempty, pathText_steps, dotted, ih,
      List.map_cons, List.map_cons, List.map_cons, String.intercalate_cons_cons,
      String.append_assoc]

/-- **The message of an error that has been moved behind branches.** -/
theorem message_behind (b : Branch) (bs : List Branch) (e : DecodeError) :
    (e.behind ((b :: bs).flatMap Branch.steps)).message =
      "at JSON path " ++ ".".intercalate ((b :: bs).map Branch.pathText) ++ continued e.path ++
        " → " ++ e.cause.text := by
  have nonempty : ((b :: bs).flatMap Branch.steps).map PathStep.ofStep ≠ [] := by
    rw [List.flatMap_cons, Branch.steps_eq]
    exact List.cons_ne_nil _ _
  rw [message, behind, pathText_append nonempty, pathText_flatMap_steps, ← String.append_assoc]

end DecodeError

end SchemaModel
