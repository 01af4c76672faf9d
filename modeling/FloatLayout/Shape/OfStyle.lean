import FloatLayout.FloatBox
import FloatLayout.LineRelative
import FloatLayout.Shape.Basic

/-!
# Shapes of styles

The shape that the `shape-outside` property gives a box.

## Main definitions

- `Shape.ofStyle`: the shape of a box, or the reason why there is none.
- `ShapeFailure`: the reasons.
- `BasicShape.place`: a basic shape in a reference box.
- `CornerRadii.fit`: radii scaled down until no two of one side overlap.

## Design notes

The arguments of a basic shape are physical, so they are resolved against the physical reference
box, and only the result is brought into line-relative space.
-/

namespace FloatLayout

/-- The reason why a box has no shape although its style asks for one. -/
inductive ShapeFailure where
  /-- The source cannot define a float area. -/
  | unsupportedSource
  /-- The image is not decoded yet, or it failed to draw. -/
  | imageNotReady
  /-- The rendered mask does not cover its size. -/
  | malformedMask
deriving DecidableEq, Repr

/-- The text reported for a failure. -/
def ShapeFailure.message : ShapeFailure → String
  | unsupportedSource => "shape-outside source cannot define a float area"
  | imageNotReady => "shape-outside image is not ready"
  | malformedMask => "shape-outside image produced a malformed alpha buffer"

-- ════════════════════════════════════════════════════════════════════════
-- Insets
-- ════════════════════════════════════════════════════════════════════════

/-- A rectangle inset on each side. Insets that overlap swap the sides instead of leaving a negative
    size. -/
def Rect.inset (r : Rect Length) (insets : Sides Length) : Rect Length :=
  let width := r.width - insets.horizontal
  let height := r.height - insets.vertical
  let x := r.x + insets.left
  let y := r.y + insets.top
  { x := if width < 0 then x - -width else x
    y := if height < 0 then y - -height else y
    width := if width < 0 then -width else width
    height := if height < 0 then -height else height }

/-- The lengths of the sides of a box, each with the exact sum of the radii along it. -/
def CornerRadii.sideSums (r : CornerRadii Length) (size : Size Length) : List (Length × Int) :=
  [(size.width, r.topLeft.x.units + r.topRight.x.units),
    (size.height, r.topRight.y.units + r.bottomRight.y.units),
    (size.width, r.bottomRight.x.units + r.bottomLeft.x.units),
    (size.height, r.bottomLeft.y.units + r.topLeft.y.units)]

/-- The factor by which radii have to shrink so that those along one side fit its length, computed
    in double precision. -/
def CornerRadii.sideRatio (length : Length) (sum : Int) : Rat :=
  Binary.round Binary.double (length.units / (sum : Rat))

/-- The factor by which radii have to shrink to fit a box: the least one of all sides with radii. -/
def CornerRadii.ratio (r : CornerRadii Length) (size : Size Length) : Rat :=
  (r.sideSums size).foldl (fun least (length, sum) =>
    if 0 < sum ∧ sideRatio length sum < least then sideRatio length sum else least) 1

/-- Radii scaled by one factor so that no two of them overlap along a side of a box, or nothing if
    no radius is positive. -/
def CornerRadii.fit (r : CornerRadii Length) (size : Size Length) : Option (CornerRadii Length) :=
  if ∀ radius ∈ r.toList, radius ≤ 0 then none
  else
    let ratio := r.ratio size
    let scale (radius : Length) : Length :=
      .clamp (Binary.truncate (Binary.round Binary.double (radius.units * ratio)))
    some (if ratio < 1 then r.map scale else r)

-- ════════════════════════════════════════════════════════════════════════
-- Circles and ellipses
-- ════════════════════════════════════════════════════════════════════════

/-- A radius along one axis, in a reference box that reaches from `least` to `greatest`. -/
def ShapeRadius.resolve (radius : ShapeRadius) (center least greatest : Length) : Length :=
  let before := (center - least).abs
  let after := (greatest - center).abs
  match radius with
  | length l => l
  | closestSide => min before after
  | farthestSide => max before after

/-- The radius of a circle. A keyword considers the sides along both axes. -/
def ShapeRadius.resolveCircle (radius : ShapeRadius) (center : Point Length)
    (reference : Rect Length) : Length :=
  let horizontal := radius.resolve center.x reference.x reference.right
  let vertical := radius.resolve center.y reference.y reference.bottom
  match radius with
  | length l => l
  | closestSide => min horizontal vertical
  | farthestSide => max horizontal vertical

-- ════════════════════════════════════════════════════════════════════════
-- Shapes
-- ════════════════════════════════════════════════════════════════════════

/-- A basic shape in a physical reference box. -/
def BasicShape.place (basic : BasicShape) (reference : Rect Length) (mode : WritingMode)
    (container : Size Length) : Shape :=
  let place (p : Point Length) := LineRelative.point mode p container
  match basic with
  | .inset insets radii =>
    let rect := reference.inset insets
    .roundedBox
      { rect := LineRelative.rect (Logical.Rect.ofPhysical mode rect container) container
        radii := (radii.bind (·.fit rect.size)).map (·.lineRelative mode) }
  | .circle center radius =>
    let center := reference.origin.shift center.x center.y
    let radius := radius.resolveCircle center reference
    .ellipse { center := place center, radii := ⟨radius, radius⟩ }
  | .ellipse center radiusX radiusY =>
    let center := reference.origin.shift center.x center.y
    let radii := Logical.Size.ofPhysical mode
      ⟨radiusX.resolve center.x reference.x reference.right,
        radiusY.resolve center.y reference.y reference.bottom⟩
    .ellipse { center := place center, radii := ⟨radii.inline, radii.block⟩ }
  | .polygon vertices =>
    .polygon (.ofVertices (vertices.map fun v => place (reference.origin.shift v.x v.y)))

/-- The shape of a rendered image. -/
def FloatBox.imageShape (box : FloatBox) (threshold : Single) (mode : WritingMode)
    (container : Size Length) : Except Fault (Except ShapeFailure Shape) := do
  let content ← box.contentRect
  match box.render (box.imageSize content) with
  | none => return .error .imageNotReady
  | some mask =>
    if mask.layout.WellFormed then
      return .ok (.pixels (← PixelArea.ofMask mask box.pixelUnits threshold content mode container))
    else return .error .malformedMask

/-- The shape of a box whose margin box is `marginRect`, if its style asks for one. It is not yet
    moved to the place of the containing block. -/
def Shape.ofStyle (box : FloatBox) (marginRect : Logical.Rect Length) (mode : WritingMode)
    (container : Size Length) : Except Fault (Except ShapeFailure (Option Shape)) :=
  match box.shapeOutside with
  | .none => return .ok none
  | .url => return .error .unsupportedSource
  | .image threshold => return (← box.imageShape threshold mode container).map some
  | .box reference => do
    let rect ← LineRelative.rectIn mode (← box.referenceRect reference mode marginRect) container
    return .ok (some (.roundedBox ⟨rect, box.radii.map (·.lineRelative mode)⟩))
  | .shape basic reference => do
    let rect ← box.referenceRect reference mode marginRect
    Logical.expectMode rect.mode mode
    return .ok (some (basic.place (rect.toPhysical container) mode container))

end FloatLayout
