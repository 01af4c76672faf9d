import FloatLayout.Shape.OfStyle

/-!
# Placed floats

A float in the place that layout gave it, in the line-relative space of its float context.

## Main definitions

- `PlacedFloat`: the record of a float.
- `PlacedFloat.place`: the record of a box at its margin box.
- `FloatArea`: whether content flows around the margin box or around the shape.
- `PlacedFloat.edge`, `PlacedFloat.blockStart`, `PlacedFloat.blockEnd`, `PlacedFloat.isEmpty`: the
  area of a float, where a shape is clipped to the margin box.
-/

namespace FloatLayout

/-- The area of a float that content flows around. -/
inductive FloatArea where
  | marginBox
  | shapeOutside
deriving DecidableEq, Repr

/-- A float in its place. -/
structure PlacedFloat where
  /-- The name of the box. -/
  id : Nat
  side : LineSide
  /-- The margin box. -/
  rect : Rect Length
  /-- The greatest block end of a left float placed up to this one. -/
  leftEnd : Length
  /-- The greatest block end of a right float placed up to this one. -/
  rightEnd : Length
  /-- The float area, unless it is the margin box. -/
  shape : Option Shape
deriving DecidableEq

namespace PlacedFloat

/-- The record of a box at its margin box, moved by the offset of its containing block, before any
    other float counts. A margin box without area never has a shape, because a shape is clipped to
    it. A box without a shape of its own uses its margin box. -/
def place (box : FloatBox) (side : LineSide) (dx dy : Length) (marginRect : Logical.Rect Length)
    (mode : WritingMode) (container : Size Length) : Except Fault PlacedFloat := do
  let rect := (← LineRelative.rectIn mode marginRect container).shift dx dy
  let plain : PlacedFloat :=
    { id := box.id, side, rect, leftEnd := .least, rightEnd := .least, shape := none }
  if rect.IsEmpty then return plain
  else
    match ← Shape.ofStyle box marginRect mode container with
    | .ok shape => return { plain with shape := shape.map (·.shift dx dy) }
    | .error _ => return plain

/-- The shape of an area, unless it is the margin box. -/
def areaShape (f : PlacedFloat) : FloatArea → Option Shape
  | .marginBox => none
  | .shapeOutside => f.shape

/-- The farther in of two positions on a side: an edge of a shape clipped to the margin box. -/
def clip (side : LineSide) (box shape : Length) : Length := side.opposite.outer box shape

/-- The edge of an area on a line side in a band. -/
def edge (f : PlacedFloat) (area : FloatArea) (side : LineSide) (band : Band) :
    Except Fault Length :=
  match f.areaShape area with
  | none => return f.rect.lineEdge side
  | some shape => return clip side (f.rect.lineEdge side) (← shape.edge side band)

/-- The first block position of an area. -/
def blockStart (f : PlacedFloat) (area : FloatArea) : Length :=
  match f.areaShape area with
  | none => f.rect.y
  | some shape => max f.rect.y shape.blockStart

/-- The last block position of an area. -/
def blockEnd (f : PlacedFloat) (area : FloatArea) : Length :=
  match f.areaShape area with
  | none => f.rect.bottom
  | some shape => min f.rect.bottom shape.blockEnd

/-- The area is empty. -/
def isEmpty (f : PlacedFloat) (area : FloatArea) : Bool :=
  match f.areaShape area with
  | none => f.rect.IsEmpty
  | some shape => shape.isEmpty

/-- No float placed up to this one reaches below `position`. -/
def AllAbove (f : PlacedFloat) (position : Length) : Prop :=
  f.leftEnd ≤ position ∧ f.rightEnd ≤ position

instance (f : PlacedFloat) (position : Length) : Decidable (f.AllAbove position) :=
  inferInstanceAs (Decidable (_ ∧ _))

/-- The record of a float, placed after the floats up to `last`. -/
def follow (f : PlacedFloat) (last : Option PlacedFloat) : PlacedFloat :=
  let leftEnd := (last.map (·.leftEnd)).getD f.leftEnd
  let rightEnd := (last.map (·.rightEnd)).getD f.rightEnd
  match f.side with
  | .left => { f with leftEnd := max leftEnd (f.blockEnd .marginBox), rightEnd }
  | .right => { f with leftEnd, rightEnd := max rightEnd (f.blockEnd .marginBox) }

/-- A float printed on a line of its own. -/
def line (f : PlacedFloat) (index : Nat) : String :=
  s!"Float {index}: frame=FrameId({f.id}) " ++
    s!"rect=\x7b{f.rect.x.units},{f.rect.y.units},{f.rect.width.units},{f.rect.height.units}\x7d " ++
    s!"BEnd=\x7bl:{f.leftEnd.units}, r:{f.rightEnd.units}\x7d\n"

end PlacedFloat

end FloatLayout
