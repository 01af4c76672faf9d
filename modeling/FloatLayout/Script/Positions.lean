import FloatLayout.Length

/-!
# Evenly spaced positions

## Main definitions

- `Script.positions`: the positions from one to another, a step apart.
-/

namespace FloatLayout.Script

/-- The positions from `first` on, `step` apart, up to `last`. -/
def positions (first last step : Int) : List Length :=
  if 0 < step then
    (List.range ((last - first) / step + 1).toNat).map fun (n : Nat) => .clamp (first + step * n)
  else []

end FloatLayout.Script
