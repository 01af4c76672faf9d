import FloatLayout.Damage

/-!
# Scripts for float damage

## Main definitions

- `DamageScript.Step`, `DamageScript.Answer`, `DamageScript.step`.
-/

namespace FloatLayout.DamageScript

/-- A step of a script. -/
inductive Step where
  | add (range : Band)
  | clear
  | intersects (range : Band)
deriving DecidableEq

/-- What comes back from a step. -/
inductive Answer where
  | damage (damage : Damage)
  | flag (holds : Bool)
deriving DecidableEq

/-- The damage that a step leaves, and its answer. -/
def step (d : Damage) : Step → Damage × Except Fault Answer
  | .add range =>
    match d.add range with
    | .ok next => (next, .ok (.damage next))
    | .error fault => (d, .error fault)
  | .clear => (.none, .ok (.damage .none))
  | .intersects range => (d, .ok (.flag (d.intersects range)))

end FloatLayout.DamageScript
