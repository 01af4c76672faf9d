import FloatLayout.FloatContext.Basic

/-!
# Operations on float contexts

The changes of a float context as data, so that whole histories can be written down.

## Main definitions

- `Operation`: a change of a float context.
- `Operation.apply`: the context after a change, and the fault if it failed.
- `FloatContext.run`: the context after a list of changes.

## Design notes

A change that fails half way leaves its mark. `Operation.apply` therefore gives the context that is
left in every case.
-/

namespace FloatLayout

/-- A change of a float context. -/
inductive Operation where
  | translate (dx dy : Length)
  | add (box : FloatBox) (marginRect : Logical.Rect Length) (mode : WritingMode)
      (container : Size Length)
  | removeTrailing (ids : List Nat)
  | rewind (checkpoint : Checkpoint)
  | mark (mark : BreakMark)
  | addDamage (range : Band)

/-- The context that a change leaves, and the fault if it failed. Removing floats fails afterwards,
    if one of them is still there. Going back fails after the offset and the marks are back, if
    floats are missing. -/
def Operation.apply (c : FloatContext) : Operation → FloatContext × Except Fault Unit
  | translate dx dy => (c.translate dx dy, .ok ())
  | add box marginRect mode container =>
    match c.add box marginRect mode container with
    | .ok next => (next, .ok ())
    | .error fault => (c, .error fault)
  | removeTrailing ids =>
    let next := c.removeTrailing ids
    (next, require (next.HasNone ids) .notTrailing)
  | rewind checkpoint =>
    (c.rewind checkpoint, require (checkpoint.count ≤ c.floats.length) .lostCheckpoint)
  | mark m => (c.mark m, .ok ())
  | addDamage range =>
    match c.addDamage range with
    | .ok next => (next, .ok ())
    | .error fault => (c, .error fault)

/-- The context after a list of changes, if none of them fails. -/
def FloatContext.run (c : FloatContext) : List Operation → Except Fault FloatContext
  | [] => .ok c
  | operation :: rest =>
    match operation.apply c with
    | (next, .ok ()) => next.run rest
    | (_, .error fault) => .error fault

end FloatLayout
