import FloatLayout.Physical
import FloatLayout.Shape.Corners

/-!
# Ellipses

The float area of a circle or of an ellipse, in line-relative space. An ellipse is a rounded box
whose corners meet in the middle of its sides.

## Main definitions

- `Ellipse`: a centre with a radius along either axis.
- `Ellipse.edge`: its edge in a band.
-/

namespace FloatLayout

/-- An ellipse. -/
structure Ellipse where
  center : Point Length
  /-- The radius along the line and the one across it. -/
  radii : Size Length
deriving DecidableEq

namespace Ellipse

/-- The first block position. -/
def blockStart (e : Ellipse) : Length := e.center.y - e.radii.height

/-- The last block position. -/
def blockEnd (e : Ellipse) : Length := e.center.y + e.radii.height

/-- An ellipse without area. -/
def IsEmpty (e : Ellipse) : Prop := e.radii.IsEmpty

instance (e : Ellipse) : Decidable e.IsEmpty := inferInstanceAs (Decidable e.radii.IsEmpty)

/-- The corners at the ends of either side. -/
def corners (e : Ellipse) : SideCorners :=
  let quarter : CornerRadius Length := ⟨e.radii.width, e.radii.height⟩
  ⟨quarter, quarter⟩

/-- The edge in a band. -/
def edge (e : Ellipse) (side : LineSide) (band : Band) : Except Fault Length := do
  let indent ← e.corners.indent ⟨e.blockStart, e.blockEnd⟩ band
  return side.inward (side.outward e.center.x e.radii.width) indent

/-- The ellipse moved by an offset. -/
def shift (e : Ellipse) (dx dy : Length) : Ellipse := { e with center := e.center.shift dx dy }

end Ellipse

end FloatLayout
