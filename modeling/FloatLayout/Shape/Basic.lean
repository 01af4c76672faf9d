import FloatLayout.Shape.Ellipse
import FloatLayout.Shape.PixelArea
import FloatLayout.Shape.Polygon
import FloatLayout.Shape.RoundedBox

/-!
# Shapes

The float area that `shape-outside` gives a float, in line-relative space.

## Main definitions

- `Shape`: a shape of any kind.
- `Shape.edge`: its edge on a line side in a band.
- `Shape.blockStart`, `Shape.blockEnd`, `Shape.isEmpty`, `Shape.shift`.
-/

namespace FloatLayout

/-- The float area of a float. -/
inductive Shape where
  | roundedBox (box : RoundedBox)
  | ellipse (ellipse : Ellipse)
  | polygon (polygon : Polygon)
  | pixels (area : PixelArea)
deriving DecidableEq

namespace Shape

/-- The edge on a line side in a band. -/
def edge (side : LineSide) (band : Band) : Shape → Except Fault Length
  | roundedBox b => b.edge side band
  | ellipse e => e.edge side band
  | polygon p => p.edge side band
  | pixels a => a.edge side band

/-- The first block position. -/
def blockStart : Shape → Length
  | roundedBox b => b.blockStart
  | ellipse e => e.blockStart
  | polygon p => p.blockStart
  | pixels a => a.blockStart

/-- The last block position. -/
def blockEnd : Shape → Length
  | roundedBox b => b.blockEnd
  | ellipse e => e.blockEnd
  | polygon p => p.blockEnd
  | pixels a => a.blockEnd

/-- The shape encloses no area. -/
def isEmpty : Shape → Bool
  | roundedBox b => b.IsEmpty
  | ellipse e => e.IsEmpty
  | polygon p => p.empty
  | pixels a => a.IsEmpty

/-- The shape moved by an offset. -/
def shift (dx dy : Length) : Shape → Shape
  | roundedBox b => roundedBox (b.shift dx dy)
  | ellipse e => ellipse (e.shift dx dy)
  | polygon p => polygon (p.shift dx dy)
  | pixels a => pixels (a.shift dx dy)

end Shape

end FloatLayout
