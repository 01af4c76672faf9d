import FloatLayout.AlphaMask
import FloatLayout.Fault
import FloatLayout.Logical.Basic
import FloatLayout.Style

/-!
# Floating boxes

A box as the layout of its containing block sees it: its rectangles, its styles, and a way to
render its shape image.

## Main definitions

- `FloatBox`: the box. Rectangles are physical and relative to the containing block.
- `Rect.inner`: a rectangle less the offsets of its sides.
- `FloatBox.contentRect`: the content box.
- `FloatBox.referenceRect`: the reference box of a shape.
- `FloatBox.imageSize`: the size in device pixels at which a shape image is rendered.
-/

namespace FloatLayout

/-- A box that may float. -/
structure FloatBox where
  /-- The name of the box. Two boxes of one name are one box. -/
  id : Nat
  /-- The `float` property. -/
  float : FloatValue
  /-- The `shape-outside` property. -/
  shapeOutside : ShapeOutside := .none
  /-- The border box. -/
  rect : Rect Length
  /-- The origin of the border box before relative positioning. -/
  normalPosition : Point Length := rect.origin
  margin : Sides Length
  border : Sides Length
  padding : Sides Length
  /-- The radii of a reference box used as a shape, unless all are zero. -/
  radii : Option (CornerRadii Length) := none
  /-- The number of app units to a device pixel. -/
  unitsPerPixel : Int := 60
  /-- The shape image at a size in device pixels, once it is ready. -/
  render : Size Int → Option AlphaMask := fun _ => none

/-- A rectangle less the offsets of its sides, which must leave a size that is not negative. -/
def Rect.inner (r : Rect Length) (sides : Sides Length) : Except Fault (Rect Length) := do
  let inner : Rect Length :=
    ⟨r.x + sides.left, r.y + sides.top, r.width - sides.horizontal, r.height - sides.vertical⟩
  require (0 ≤ inner.width) .negativeInnerWidth
  require (0 ≤ inner.height) .negativeInnerHeight
  return inner

namespace FloatBox

/-- The content box. -/
def contentRect (box : FloatBox) : Except Fault (Rect Length) := do
  (← box.rect.inner box.border).inner box.padding

/-- A reference box, found by shrinking the margin box. -/
def referenceRect (box : FloatBox) (reference : ReferenceBox) (mode : WritingMode)
    (marginRect : Logical.Rect Length) : Except Fault (Logical.Rect Length) :=
  let less (sides : Sides Length) (r : Logical.Rect Length) :=
    r.deflate mode (Logical.Margin.ofPhysical mode sides)
  match reference with
  | .marginBox => return marginRect
  | .borderBox => less box.margin marginRect
  | .paddingBox => do less box.border (← less box.margin marginRect)
  | .contentBox => do less box.padding (← less box.border (← less box.margin marginRect))

/-- The app units of a device pixel used for images, which is never less than one. -/
def pixelUnits (box : FloatBox) : Int := max box.unitsPerPixel 1

/-- A length in device pixels, a half counting as a whole, computed in single precision. -/
def toPixels (pixelUnits : Int) (length : Length) : Int :=
  let round := Binary.round Binary.single
  (round (round (round length.units / round pixelUnits) + 1 / 2)).floor

/-- The size in device pixels at which an image that fills the content box is rendered. -/
def imageSize (box : FloatBox) (content : Rect Length) : Size Int :=
  ⟨toPixels box.pixelUnits content.width, toPixels box.pixelUnits content.height⟩

/-- The size at which the shape image is rendered, if the style asks for one. -/
def renderedSize (box : FloatBox) : Except Fault (Option (Size Int)) :=
  match box.shapeOutside with
  | .image _ => return some (box.imageSize (← box.contentRect))
  | _ => return none

end FloatBox

end FloatLayout
