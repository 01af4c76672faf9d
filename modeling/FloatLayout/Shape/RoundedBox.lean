import FloatLayout.Physical
import FloatLayout.Shape.Corners

/-!
# Rounded boxes

The float area of a reference box or of an inset rectangle, in line-relative space.

## Main definitions

- `RoundedBox`: a rectangle with or without rounded corners.
- `RoundedBox.edge`: its edge in a band.
-/

namespace FloatLayout

/-- A rectangle whose corners may be rounded. -/
structure RoundedBox where
  rect : Rect Length
  radii : Option (CornerRadii Length)
deriving DecidableEq

/-- The edge of a rectangle on a line side. -/
def Rect.lineEdge (r : Rect Length) : LineSide → Length
  | .left => r.x
  | .right => r.right

namespace RoundedBox

/-- The first block position. -/
def blockStart (b : RoundedBox) : Length := b.rect.y

/-- The last block position. -/
def blockEnd (b : RoundedBox) : Length := b.rect.bottom

/-- A box without area. -/
def IsEmpty (b : RoundedBox) : Prop := b.rect.IsEmpty

instance (b : RoundedBox) : Decidable b.IsEmpty := inferInstanceAs (Decidable b.rect.IsEmpty)

/-- The edge in a band. -/
def edge (b : RoundedBox) (side : LineSide) (band : Band) : Except Fault Length :=
  match b.radii with
  | none => return b.rect.lineEdge side
  | some radii => do
    let indent ← (radii.ofSide side).indent ⟨b.blockStart, b.blockEnd⟩ band
    return side.inward (b.rect.lineEdge side) indent

/-- The box moved by an offset. -/
def shift (b : RoundedBox) (dx dy : Length) : RoundedBox := { b with rect := b.rect.shift dx dy }

end RoundedBox

end FloatLayout
