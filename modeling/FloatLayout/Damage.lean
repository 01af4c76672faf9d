import FloatLayout.Fault
import FloatLayout.LineSide

/-!
# Float damage

The block ranges in which floats changed, so that the lines that overlap them are laid out again.

## Main definitions

- `Damage`: closed block ranges, in order and apart from each other.
- `Damage.add`: adds a range.
- `Damage.intersects`: some range overlaps a given one.
-/

namespace FloatLayout

/-- Damaged block ranges, from the first on. -/
structure Damage where
  ranges : List Band
deriving DecidableEq

namespace Damage

/-- No damage. -/
def none : Damage := ⟨[]⟩

/-- No range is damaged. -/
def isEmpty (d : Damage) : Bool := d.ranges.isEmpty

/-- Adds a range to ranges in order, joined with all that it overlaps or touches. -/
def insert (range : Band) : List Band → List Band
  | [] => [range]
  | r :: rest =>
    if r.stop < range.start then r :: insert range rest
    else if range.stop < r.start then range :: r :: rest
    else insert ⟨min range.start r.start, max range.stop r.stop⟩ rest

/-- Adds a range. -/
def add (d : Damage) (range : Band) : Except Fault Damage := do
  require (range.start ≤ range.stop) .invertedDamage
  return ⟨insert range d.ranges⟩

/-- Some damaged range overlaps or touches `range`. -/
def intersects (d : Damage) (range : Band) : Bool :=
  (d.ranges.takeWhile (·.start ≤ range.stop)).any (range.start ≤ ·.stop)

end Damage

end FloatLayout
