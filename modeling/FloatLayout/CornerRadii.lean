import FloatLayout.WritingMode

/-!
# Corner radii

A rounded box has an elliptic arc at each corner, given by a radius along either axis.

## Main definitions

- `CornerRadii`: the radii of the four corners.
- `HalfCorner`: one radius of one corner, numbered clockwise from the top left. `HalfCorner.ofSide`
  names it from a side that touches its corner.
- `CornerRadii.lineRelative`: physical radii in line-relative space.
-/

namespace FloatLayout

/-- The radii of an elliptic arc along the two axes. -/
structure CornerRadius (α : Type) where
  x : α
  y : α
deriving DecidableEq, Inhabited

/-- The radii of the four corners of a box, clockwise. -/
structure CornerRadii (α : Type) where
  topLeft : CornerRadius α
  topRight : CornerRadius α
  bottomRight : CornerRadius α
  bottomLeft : CornerRadius α
deriving DecidableEq, Inhabited

/-- A corner of a box. -/
inductive Corner where
  | topLeft
  | topRight
  | bottomRight
  | bottomLeft
deriving DecidableEq, Repr

/-- The axis a radius is measured along. -/
inductive Axis where
  | x
  | y
deriving DecidableEq, Repr

/-- One radius of one corner. -/
structure HalfCorner where
  corner : Corner
  axis : Axis
deriving DecidableEq, Repr

namespace Corner

/-- The corner that a clockwise walk along a side comes from. -/
def first : PhysicalSide → Corner
  | .top => topLeft
  | .right => topRight
  | .bottom => bottomRight
  | .left => bottomLeft

/-- The corner that a clockwise walk along a side leads to. -/
def second : PhysicalSide → Corner
  | .top => topRight
  | .right => bottomRight
  | .bottom => bottomLeft
  | .left => topLeft

/-- The number of a corner, clockwise from the top left. -/
def index : Corner → Nat
  | topLeft => 0
  | topRight => 1
  | bottomRight => 2
  | bottomLeft => 3

end Corner

namespace Axis

/-- The axis along which a side runs. -/
def along : PhysicalSide → Axis
  | .top | .bottom => x
  | .left | .right => y

/-- The other axis. -/
def other : Axis → Axis
  | x => y
  | y => x

end Axis

namespace HalfCorner

/-- The half corner that touches `side`: at its second corner or at its first, measured parallel
    to the side or across it. -/
def ofSide (side : PhysicalSide) (second parallel : Bool) : HalfCorner where
  corner := if second then Corner.second side else Corner.first side
  axis := if parallel then Axis.along side else (Axis.along side).other

/-- The number of a half corner: clockwise from the top left, `x` before `y`. -/
def index (h : HalfCorner) : Nat :=
  2 * h.corner.index + match h.axis with
    | .x => 0
    | .y => 1

end HalfCorner

namespace CornerRadii

variable {α : Type}

/-- The radii of one corner. -/
def corner (r : CornerRadii α) : Corner → CornerRadius α
  | .topLeft => r.topLeft
  | .topRight => r.topRight
  | .bottomRight => r.bottomRight
  | .bottomLeft => r.bottomLeft

/-- One radius of one corner. -/
def get (r : CornerRadii α) (h : HalfCorner) : α :=
  match h.axis with
  | .x => (r.corner h.corner).x
  | .y => (r.corner h.corner).y

/-- Radii made from those of each corner. -/
def map {β : Type} (f : α → β) (r : CornerRadii α) : CornerRadii β :=
  let both (c : CornerRadius α) : CornerRadius β := ⟨f c.x, f c.y⟩
  ⟨both r.topLeft, both r.topRight, both r.bottomRight, both r.bottomLeft⟩

/-- All radii, clockwise from the top left, `x` before `y`. -/
def toList (r : CornerRadii α) : List α :=
  [r.topLeft.x, r.topLeft.y, r.topRight.x, r.topRight.y,
    r.bottomRight.x, r.bottomRight.y, r.bottomLeft.x, r.bottomLeft.y]

/-- The radii of the corner at one end of a line-left or line-right side. Across the side lies the
    inline axis, along it the block axis. -/
def atEndOf (r : CornerRadii α) (side : PhysicalSide) (second : Bool) : CornerRadius α :=
  ⟨r.get (.ofSide side second false), r.get (.ofSide side second true)⟩

/-- Radii with block-start and block-end corners swapped. -/
def flipBlock (r : CornerRadii α) : CornerRadii α :=
  ⟨r.bottomLeft, r.bottomRight, r.topRight, r.topLeft⟩

/-- Physical radii in line-relative space, where the left is line-left, the top is block-start,
    `x` runs along the inline axis and `y` along the block axis. The first corner, clockwise, of an
    inverted line is at block-end. -/
def lineRelative (mode : WritingMode) (r : CornerRadii α) : CornerRadii α :=
  let turned : CornerRadii α :=
    { topLeft := r.atEndOf mode.lineLeft true
      topRight := r.atEndOf mode.lineRight false
      bottomRight := r.atEndOf mode.lineRight true
      bottomLeft := r.atEndOf mode.lineLeft false }
  if mode.lineInverted then turned.flipBlock else turned

end CornerRadii

end FloatLayout
