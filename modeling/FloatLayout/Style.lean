import FloatLayout.CornerRadii
import FloatLayout.LineSide
import FloatLayout.Binary.Single

/-!
# Float styles

The computed values of the properties that place floats. Lengths and percentages are already
resolved against the reference box.

## Main definitions

- `FloatValue`, `ClearValue`: the `float` and `clear` properties.
- `FloatValue.side?`, `ClearValue.side`: the line-relative sides they stand for in a writing mode.
- `ShapeOutside`, `BasicShape`, `ReferenceBox`, `ShapeRadius`: the `shape-outside` property.
-/

namespace FloatLayout

/-- The `float` property. -/
inductive FloatValue where
  | none
  | left
  | right
  | inlineStart
  | inlineEnd
deriving DecidableEq, Repr

/-- The `clear` property. -/
inductive ClearValue where
  | none
  | left
  | right
  | both
  | inlineStart
  | inlineEnd
deriving DecidableEq, Repr

/-- The line-relative sides on which floats are cleared. -/
inductive ClearSide where
  | none
  | left
  | right
  | both
deriving DecidableEq, Repr

/-- The side of a box of `float` property `value` in a containing block of `mode`, if it floats. -/
def FloatValue.side? (value : FloatValue) (mode : WritingMode) : Option LineSide :=
  match value with
  | .none => Option.none
  | .left => some .left
  | .right => some .right
  | .inlineStart => some (if mode.isLtr then .left else .right)
  | .inlineEnd => some (if mode.isLtr then .right else .left)

/-- The sides that the `clear` property `value` stands for in a containing block of `mode`. -/
def ClearValue.side (value : ClearValue) (mode : WritingMode) : ClearSide :=
  match value with
  | .none => .none
  | .left => .left
  | .right => .right
  | .both => .both
  | .inlineStart => if mode.isLtr then .left else .right
  | .inlineEnd => if mode.isLtr then .right else .left

/-- Left floats are cleared. -/
def ClearSide.clearsLeft : ClearSide → Bool
  | .left | .both => true
  | .none | .right => false

/-- Right floats are cleared. -/
def ClearSide.clearsRight : ClearSide → Bool
  | .right | .both => true
  | .none | .left => false

/-- The box that a shape is positioned against. -/
inductive ReferenceBox where
  | marginBox
  | borderBox
  | paddingBox
  | contentBox
deriving DecidableEq, Repr

/-- A radius of a circle or of an ellipse. -/
inductive ShapeRadius where
  | length (radius : Length)
  | closestSide
  | farthestSide
deriving DecidableEq

/-- A basic shape. Points are physical offsets from the origin of the reference box. -/
inductive BasicShape where
  /-- A rectangle inset from each side, whose corners may be rounded. -/
  | inset (insets : Sides Length) (radii : Option (CornerRadii Length))
  | circle (center : Point Length) (radius : ShapeRadius)
  | ellipse (center : Point Length) (radiusX radiusY : ShapeRadius)
  | polygon (vertices : List (Point Length))
deriving DecidableEq

/-- The `shape-outside` property. -/
inductive ShapeOutside where
  | none
  /-- A reference to a clip path, which defines no float area. -/
  | url
  /-- A reference box with its own rounded corners. -/
  | box (reference : ReferenceBox)
  | shape (basic : BasicShape) (reference : ReferenceBox)
  /-- An image, whose pixels count from an alpha threshold on. -/
  | image (threshold : Single)
deriving DecidableEq

end FloatLayout
