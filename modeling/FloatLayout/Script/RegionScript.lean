import FloatLayout.FloatRegion

/-!
# Scripts for region stores

## Main definitions

- `RegionScript.Step`, `RegionScript.Answer`, `RegionScript.step`.
-/

namespace FloatLayout.RegionScript

/-- A step of a script. -/
inductive Step where
  | get (mode : WritingMode) (box : FloatBox) (container : Size Length)
  | put (mode : WritingMode) (box : FloatBox) (region : Logical.Rect Length)
      (container : Size Length)
  | erase (id : Nat)

/-- What comes back from a step. -/
inductive Answer where
  | region (region : Logical.Rect Length)
  | store (store : RegionStore)
deriving DecidableEq

/-- The store that a step leaves, and its answer. -/
def step (s : RegionStore) : Step → RegionStore × Except Fault Answer
  | .get mode box container => (s, (s.get mode box container).map .region)
  | .put mode box region container =>
    match s.put mode box region container with
    | .ok next => (next, .ok (.store next))
    | .error fault => (s, .error fault)
  | .erase id =>
    let next := s.erase id
    (next, .ok (.store next))

end FloatLayout.RegionScript
