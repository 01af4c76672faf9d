import FloatLayout.Proofs.Conversion
import FloatLayout.Proofs.Placement

/-!
# Reference boxes on the page

A shape is positioned against a box found by shrinking the margin box in the writing mode of the
container, while an image is laid out over the content box that is found by shrinking the border box
on the page. Both ways lead to the same boxes.

## Main definitions

- `FloatBox.PageBoxes`: the boxes of a float on the page.
- `FloatBox.PageBoxes.rect`: the one that a reference box stands for.
- `FloatBox.PageBoxes.contentRect_eq`: the content box, found from the border box.
- `FloatBox.PageBoxes.toPhysical_eq`: a reference box, found from the margin box.
- `FloatBox.PageBoxes.referenceRect_onPage`: shapes of every kind use these boxes.
-/

namespace FloatLayout

/-- The amounts of opposite sides add up within the range of lengths. -/
structure Sides.Exact (s : Sides Length) : Prop where
  horizontal : s.horizontal.units = s.units.horizontal
  vertical : s.vertical.units = s.units.vertical

/-- A rectangle less the offsets of its sides is found if that leaves no negative size. -/
theorem Rect.inner_eq_ok {r inner : Rect Length} {sides : Sides Length} (hsides : sides.Exact)
    (h : inner.units = r.units.less sides.units) (hwidth : 0 ≤ inner.width)
    (hheight : 0 ≤ inner.height) : r.inner sides = .ok inner := by
  have hx : r.x + sides.left = inner.x := Length.add_eq_of_units (congrArg Rect.x h)
  have hy : r.y + sides.top = inner.y := Length.add_eq_of_units (congrArg Rect.y h)
  have hwidth' : r.width - sides.horizontal = inner.width := by
    apply Length.sub_eq_of_units
    rw [hsides.horizontal]
    exact congrArg Rect.width h
  have hheight' : r.height - sides.vertical = inner.height := by
    apply Length.sub_eq_of_units
    rw [hsides.vertical]
    exact congrArg Rect.height h
  simp only [Rect.inner, hx, hy, hwidth', hheight']
  exact require_bind_eq_ok_iff.2 ⟨hwidth, require_bind_eq_ok_iff.2 ⟨hheight, rfl⟩⟩

/-- An image that is ready is laid out over the content box. -/
theorem Shape.ofStyle_image {box : FloatBox} {threshold : Single} {content : Rect Length}
    {mask : AlphaMask} (h : box.shapeOutside = .image threshold)
    (hcontent : box.contentRect = .ok content)
    (hmask : box.render (box.imageSize content) = some mask) (hformed : mask.layout.WellFormed)
    (marginRect : Logical.Rect Length) (m : WritingMode) (container : Size Length) :
    ofStyle box marginRect m container =
      (PixelArea.ofMask mask box.pixelUnits threshold content m container).map
        fun area => .ok (some (.pixels area)) := by
  simp only [ofStyle, h, FloatBox.imageShape, hcontent, bind, Except.bind, hmask, if_pos hformed]
  cases PixelArea.ofMask mask box.pixelUnits threshold content m container <;> rfl

namespace FloatBox

/-- The boxes of a float on the page, each found from its border box in whole numbers. Those inside
    of the border box have no negative size. -/
structure PageBoxes (box : FloatBox) where
  marginBox : Rect Length
  paddingBox : Rect Length
  contentBox : Rect Length
  marginBox_units : marginBox.units = box.rect.units.more box.margin.units
  paddingBox_units : paddingBox.units = box.rect.units.less box.border.units
  contentBox_units : contentBox.units = paddingBox.units.less box.padding.units
  paddingBox_size : 0 ≤ paddingBox.width ∧ 0 ≤ paddingBox.height
  contentBox_size : 0 ≤ contentBox.width ∧ 0 ≤ contentBox.height

namespace PageBoxes

variable {box : FloatBox} {m : WritingMode} {container : Size Length} {reference : ReferenceBox}

/-- The box on the page that a reference box stands for. -/
def rect (boxes : box.PageBoxes) : ReferenceBox → Rect Length
  | .marginBox => boxes.marginBox
  | .borderBox => box.rect
  | .paddingBox => boxes.paddingBox
  | .contentBox => boxes.contentBox

theorem inner_border_eq (boxes : box.PageBoxes) (hborder : box.border.Exact) :
    box.rect.inner box.border = .ok boxes.paddingBox :=
  Rect.inner_eq_ok hborder boxes.paddingBox_units boxes.paddingBox_size.1 boxes.paddingBox_size.2

/-- The content box, found by shrinking the border box twice. -/
theorem contentRect_eq (boxes : box.PageBoxes) (hborder : box.border.Exact)
    (hpadding : box.padding.Exact) : box.contentRect = .ok boxes.contentBox := by
  refine bind_eq_ok_iff.2 ⟨_, boxes.inner_border_eq hborder, ?_⟩
  exact Rect.inner_eq_ok hpadding boxes.contentBox_units boxes.contentBox_size.1
    boxes.contentBox_size.2

/-- Taking the margin from the margin box leaves the border box, and so on inwards. -/
theorem units_rect (boxes : box.PageBoxes) (reference : ReferenceBox) :
    (boxes.rect reference).units =
      ((box.insetsOf reference).map Sides.units).foldl Rect.less boxes.marginBox.units := by
  have hborderBox : boxes.marginBox.units.less box.margin.units = box.rect.units := by
    rw [boxes.marginBox_units, Rect.less_more]
  cases reference with
  | marginBox => rfl
  | borderBox => exact hborderBox.symm
  | paddingBox =>
    rw [rect, boxes.paddingBox_units, ← hborderBox]
    rfl
  | contentBox =>
    rw [rect, boxes.contentBox_units, boxes.paddingBox_units, ← hborderBox]
    rfl

/-- A reference box, found by shrinking the margin box in a writing mode and then converted. -/
theorem toPhysical_eq (boxes : box.PageBoxes)
    (hexact : Logical.Rect.PhysicalExact m boxes.marginBox (box.insetsOf reference) container) :
    ((Logical.Rect.ofPhysical m boxes.marginBox container).shrinkAll
      (box.insetsOf reference)).toPhysical container = boxes.rect reference := by
  apply Rect.units_inj
  rw [hexact, shrinkAll_ofPhysical, toPhysical_ofPhysical, boxes.units_rect]

/-- Of a margin box seen in any writing mode, every reference box is the one of that name on the
    page. So shapes that name the content box are positioned against the box over which images are
    laid out. -/
theorem referenceRect_onPage (boxes : box.PageBoxes) (hborder : box.border.Exact)
    (hpadding : box.padding.Exact)
    (hexact : ∀ reference,
      Logical.Rect.PhysicalExact m boxes.marginBox (box.insetsOf reference) container) :
    let marginRect := Logical.Rect.ofPhysical m boxes.marginBox container
    box.rect.inner box.border = .ok boxes.paddingBox ∧ box.contentRect = .ok boxes.contentBox ∧
      (∀ reference, ∃ r, box.referenceRect reference m marginRect = .ok r ∧
        r.toPhysical container = boxes.rect reference ∧
        (box.shapeOutside = .box reference →
          ∃ radii, Shape.ofStyle box marginRect m container =
            .ok (.ok (some (.roundedBox ⟨LineRelative.rect r container, radii⟩)))) ∧
        ∀ basic, box.shapeOutside = .shape basic reference →
          Shape.ofStyle box marginRect m container =
            .ok (.ok (some (basic.place (boxes.rect reference) m container)))) ∧
      ∀ threshold mask, box.shapeOutside = .image threshold →
        box.render (box.imageSize boxes.contentBox) = some mask → mask.layout.WellFormed →
          Shape.ofStyle box marginRect m container =
            (PixelArea.ofMask mask box.pixelUnits threshold boxes.contentBox m container).map
              fun area => .ok (some (.pixels area)) := by
  intro marginRect
  have hcontent := boxes.contentRect_eq hborder hpadding
  refine ⟨boxes.inner_border_eq hborder, hcontent, fun reference => ?_, ?_⟩
  · have hphysical := boxes.toPhysical_eq (hexact reference)
    refine ⟨_, box.referenceRect_eq reference marginRect, hphysical, ?_, ?_⟩
    · exact fun hshape => ⟨_, Shape.ofStyle_box hshape marginRect⟩
    · intro basic hshape
      rw [← hphysical]
      exact Shape.ofStyle_shape hshape marginRect
  · intro threshold mask hshape hmask hformed
    exact Shape.ofStyle_image hshape hcontent hmask hformed marginRect m container

end PageBoxes

/-- A box with another offset on each side, one of which is negative. -/
def lopsided : FloatBox :=
  { FloatBox.plain 1 .left with
    rect := ⟨20, 30, 100, 80⟩
    margin := ⟨1, -2, 3, 4⟩, border := ⟨5, 6, 7, 8⟩, padding := ⟨9, 10, 11, 12⟩
    shapeOutside := .shape (.circle ⟨32, 24⟩ .closestSide) .contentBox }

/-- The boxes of `lopsided`. -/
def lopsidedBoxes : lopsided.PageBoxes where
  marginBox := ⟨16, 29, 102, 84⟩
  paddingBox := ⟨28, 35, 86, 68⟩
  contentBox := ⟨40, 44, 64, 48⟩
  marginBox_units := rfl
  paddingBox_units := rfl
  contentBox_units := rfl
  paddingBox_size := by decide
  contentBox_size := by decide

/-- Among lines that run upwards from right to left, a circle is positioned against the content box
    of the page. -/
theorem lopsided_referenceRect_onPage :
    let m := WritingMode.ofProperties .sidewaysLr .rtl
    let marginRect := Logical.Rect.ofPhysical m ⟨16, 29, 102, 84⟩ ⟨300, 400⟩
    lopsided.contentRect = .ok ⟨40, 44, 64, 48⟩ ∧
      (∃ r, lopsided.referenceRect .paddingBox m marginRect = .ok r ∧
        r.toPhysical ⟨300, 400⟩ = ⟨28, 35, 86, 68⟩) ∧
      Shape.ofStyle lopsided marginRect m ⟨300, 400⟩ =
        .ok (.ok (some ((BasicShape.circle ⟨32, 24⟩ .closestSide).place ⟨40, 44, 64, 48⟩ m
          ⟨300, 400⟩))) := by
  intro m marginRect
  have hexact : ∀ reference, Logical.Rect.PhysicalExact m lopsidedBoxes.marginBox
      (lopsided.insetsOf reference) ⟨300, 400⟩ := by
    intro reference
    cases reference <;> rfl
  obtain ⟨-, hcontent, hreference, -⟩ :=
    lopsidedBoxes.referenceRect_onPage ⟨rfl, rfl⟩ ⟨rfl, rfl⟩ hexact
  obtain ⟨r, hr, hphysical, -, -⟩ := hreference .paddingBox
  obtain ⟨-, -, -, -, hshape⟩ := hreference .contentBox
  exact ⟨hcontent, ⟨r, hr, hphysical⟩, hshape _ rfl⟩

end FloatBox

end FloatLayout
