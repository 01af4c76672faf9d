import FloatLayout.Length

/-!
# Line sides

The two ends of a line. An edge on one side lies farther out the farther it is from the other side,
so that whatever is said of one side says, seen in a looking glass, the same of the other.

## Main definitions

- `LineSide`: line-left or line-right.
- `LineSide.outer`: the farther out of two positions. `LineSide.innermost` is outside of nothing.
- `LineSide.inward`, `LineSide.outward`: a position moved towards or away from the other side.
- `Band`: a closed block range across the lines.
-/

namespace FloatLayout

/-- A line-relative side. -/
inductive LineSide where
  | left
  | right
deriving DecidableEq, Repr

namespace LineSide

/-- The other side. -/
def opposite : LineSide → LineSide
  | left => right
  | right => left

/-- The farther out of two positions. -/
def outer : LineSide → Length → Length → Length
  | left => min
  | right => max

/-- The position that every other one is farther out than. It stands for "no edge". -/
def innermost : LineSide → Length
  | left => .greatest
  | right => .least

/-- A position moved towards the other side. -/
def inward : LineSide → Length → Length → Length
  | left, position, distance => position + distance
  | right, position, distance => position - distance

/-- A position moved away from the other side. -/
def outward : LineSide → Length → Length → Length
  | left, position, distance => position - distance
  | right, position, distance => position + distance

end LineSide

/-- A block range with both its ends. -/
structure Band where
  start : Length
  stop : Length
deriving DecidableEq, Inhabited

end FloatLayout
