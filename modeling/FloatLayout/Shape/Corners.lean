import FloatLayout.Binary.Rounding
import FloatLayout.CornerRadii
import FloatLayout.Fault
import FloatLayout.LineSide

/-!
# Elliptic corners

The edge of a rounded box lies on the flat side of the box, except where an elliptic corner draws it
inwards.

## Main definitions

- `CornerRadius.reach`: how far an arc extends at a height above its flat side.
- `SideCorners`: the two corners at the ends of one side of a box.
- `SideCorners.indent`: how far inside its side a box starts in a band.

## Design notes

The arc is computed in double precision, each operation rounded by itself. Of an arc with axes `a`
and `b`, the extent at height `y` is `a * sqrt (1 - y * y / (b * b))`, less its fraction.
-/

namespace FloatLayout

/-- The extent of an arc along the line, at the height `y` from the middle of its ellipse. -/
def CornerRadius.reach (radius : CornerRadius Length) (y : Length) : Except Fault Length := do
  require (0 < radius.y) .flatCorner
  let round := Binary.round Binary.double
  let square (a : Length) : Rat := round (a.units * a.units : Int)
  let rest := round (1 - round (square y / square radius.y))
  let extent := round (radius.x.units * Binary.sqrt Binary.double rest)
  return .clamp (Binary.truncate extent)

/-- The corners at the block-start and at the block-end of one side of a box. -/
structure SideCorners where
  start : CornerRadius Length
  stop : CornerRadius Length
deriving DecidableEq

/-- The corners at the two ends of a line-left or line-right side. -/
def CornerRadii.ofSide (radii : CornerRadii Length) : LineSide → SideCorners
  | .left => ⟨radii.topLeft, radii.bottomLeft⟩
  | .right => ⟨radii.topRight, radii.bottomRight⟩

/-- The distance from the flat side of a box to its edge in a band. The edge of a band that ends in
    the corner at block-start lies at its end, the edge of one that starts in the corner at
    block-end lies at its start, and every other band touches the flat side. -/
def SideCorners.indent (corners : SideCorners) (box band : Band) : Except Fault Length := do
  require (box.start ≤ box.stop) .invertedBox
  require (band.start ≤ band.stop) .invertedArcBand
  if 0 < corners.start.y ∧ box.start ≤ band.stop ∧ band.stop ≤ box.start + corners.start.y then
    let height := corners.start.y - (band.stop - box.start)
    return corners.start.x - (← corners.start.reach height)
  else if 0 < corners.stop.y ∧ box.stop - corners.stop.y ≤ band.start ∧ band.start ≤ box.stop then
    let height := corners.stop.y - (box.stop - band.start)
    return corners.stop.x - (← corners.stop.reach height)
  else
    return 0

end FloatLayout
