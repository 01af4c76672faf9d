import FloatLayout.Proofs.LineSpace
import FloatLayout.Proofs.Placement
import FloatLayout.Proofs.RegionHistory

/-!
# Keyword radii

The keywords `closest-side` and `farthest-side` stand for distances of a centre from the sides of
its reference box on the page. The circle or ellipse they make is asked about in line-relative
space, to which its centre and its reference box come by different conversions. There it still ends
at the closest side of the box, or at the farthest one.

## Main definitions

- `Rect.gaps`: the distances of a point from the sides of a rectangle.
- `LineRelative.gaps_point`: these distances on the page and in line-relative space.
- `Extent`: the range that something takes up along one axis.
- `ShapeRadius.choose`: the distance that a radius stands for.
- `ShapeRadius.Fits`, `ShapeRadius.FitsCircle`: what a keyword promises of the extents it makes.
- `Logical.Rect.CenterExact`: a centre and its reference box came into line-relative space exactly.
- `FloatBox.keyword_radii_fit`: circles and ellipses keep these promises in every writing mode.
-/

namespace FloatLayout

-- ════════════════════════════════════════════════════════════════════════
-- Distances from the sides of a box
-- ════════════════════════════════════════════════════════════════════════

/-- How far inside of each side of a rectangle a point lies. -/
def Rect.gaps (r : Rect Int) (p : Point Int) : Sides Int :=
  ⟨p.y - r.y, r.right - p.x, r.bottom - p.y, p.x - r.x⟩

/-- A point of the page lies as far inside of the sides of a rectangle in line-relative space, where
    the sides have other names. -/
theorem LineRelative.gaps_point (m : WritingMode) (r : Rect Int) (p : Point Int)
    (container : Size Int) :
    (rect (.ofPhysical m r container) container).gaps (point m p container) =
      let gaps := r.gaps p
      if m.vertical then
        ⟨if m.verticalLr then gaps.left else gaps.right,
          if m.inlineReversed then gaps.top else gaps.bottom,
          if m.verticalLr then gaps.right else gaps.left,
          if m.inlineReversed then gaps.bottom else gaps.top⟩
      else gaps := by
  rw [point_eq, rect_ofPhysical]
  rcases m with ⟨_, _ | _, _ | _, _, _, _ | _⟩ <;>
    simp only [Rect.gaps, Rect.right, Rect.bottom, if_true, if_false, Bool.false_eq_true,
      Sides.mk.injEq, true_and, and_true] <;>
    omega

namespace ShapeRadius

/-- The distance that a radius stands for, between the distances of the centre from two sides. -/
def choose : ShapeRadius → Int → Int → Int
  | length l => fun _ _ => l.units
  | closestSide => min
  | farthestSide => max

theorem choose_comm (radius : ShapeRadius) (a b : Int) : radius.choose a b = radius.choose b a := by
  cases radius with
  | length l => rfl
  | closestSide => exact Int.min_comm a b
  | farthestSide => exact Int.max_comm a b

theorem choose_ite (radius : ShapeRadius) (p : Prop) [Decidable p] (a b : Int) :
    radius.choose (if p then a else b) (if p then b else a) = radius.choose a b := by
  split
  · rfl
  · exact radius.choose_comm b a

/-- A radius that is no length. -/
def IsKeyword : ShapeRadius → Prop
  | length _ => False
  | closestSide | farthestSide => True

/-- A keyword stands for the distance from one of the two sides. -/
theorem choose_eq_or (radius : ShapeRadius) (hkeyword : radius.IsKeyword) (a b : Int) :
    radius.choose a b = a ∨ radius.choose a b = b := by
  cases radius with
  | length l => exact hkeyword.elim
  | closestSide => exact min_choice a b
  | farthestSide => exact max_choice a b

end ShapeRadius

/-- Distances along a line are chosen from as those along the axis of the page that a mode has for
    lines, and distances across the lines as those along the other axis. -/
theorem LineRelative.choose_gaps (m : WritingMode) (radiusX radiusY : ShapeRadius) (r : Rect Int)
    (p : Point Int) (container : Size Int) :
    let gaps := r.gaps p
    let chosen := Logical.Size.ofPhysical m
      ⟨radiusX.choose gaps.left gaps.right, radiusY.choose gaps.top gaps.bottom⟩
    let radii := Logical.Size.ofPhysical m ⟨radiusX, radiusY⟩
    let gaps' := (rect (.ofPhysical m r container) container).gaps (point m p container)
    radii.inline.choose gaps'.left gaps'.right = chosen.inline ∧
      radii.block.choose gaps'.top gaps'.bottom = chosen.block := by
  intro gaps chosen radii gaps'
  have hgaps : gaps' = _ := gaps_point m r p container
  rw [hgaps]
  cases hvertical : m.vertical with
  | false =>
    simp only [radii, chosen, Logical.Size.ofPhysical, hvertical, Bool.false_eq_true, if_false,
      gaps, and_self]
  | true =>
    simp only [radii, chosen, Logical.Size.ofPhysical, hvertical, if_true]
    exact ⟨(radiusY.choose_comm _ _).trans (radiusY.choose_ite _ _ _), radiusX.choose_ite _ _ _⟩

-- ════════════════════════════════════════════════════════════════════════
-- Extents
-- ════════════════════════════════════════════════════════════════════════

/-- The range that something takes up along one axis. -/
structure Extent where
  start : Length
  stop : Length

namespace Extent

variable {e : Extent} {center reach : Length}

/-- As far as `reach` to either side of a position. -/
def around (center reach : Length) : Extent := ⟨center - reach, center + reach⟩

/-- An extent lies in another one. -/
def Within (inner outer : Extent) : Prop := outer.start ≤ inner.start ∧ inner.stop ≤ outer.stop

/-- Two extents have an end in common. -/
def Touches (e f : Extent) : Prop := e.start = f.start ∨ e.stop = f.stop

theorem around_within (hstart : reach.units ≤ center.units - e.start.units)
    (hstop : reach.units ≤ e.stop.units - center.units) : (around center reach).Within e := by
  have := e.start.upper
  have := e.stop.lower
  simp only [Within, around, Length.le_def, Length.units_sub, Length.units_add]
  omega

theorem within_around (hstart : center.units - e.start.units ≤ reach.units)
    (hstop : e.stop.units - center.units ≤ reach.units) : e.Within (around center reach) := by
  have := e.start.lower
  have := e.stop.upper
  simp only [Within, around, Length.le_def, Length.units_sub, Length.units_add]
  omega

theorem around_touches (h : reach.units = center.units - e.start.units ∨
    reach.units = e.stop.units - center.units) : (around center reach).Touches e := by
  rcases h with hstart | hstop
  · exact .inl (Length.sub_eq_of_units (by omega))
  · exact .inr (Length.add_eq_of_units (by omega))

end Extent

/-- The extent of a rectangle along the first axis. -/
def Rect.extentX (r : Rect Length) : Extent := ⟨r.x, r.right⟩

/-- The extent of a rectangle along the second axis. -/
def Rect.extentY (r : Rect Length) : Extent := ⟨r.y, r.bottom⟩

/-- The extent of an ellipse along a line. -/
def Ellipse.extentX (e : Ellipse) : Extent := .around e.center.x e.radii.width

/-- The extent of an ellipse across the lines. -/
def Ellipse.extentY (e : Ellipse) : Extent := ⟨e.blockStart, e.blockEnd⟩

namespace ShapeRadius

/-- What a keyword promises of the extent of an ellipse along an axis: it ends at the closest side
    of the reference box and stays in the box, or it ends at the farthest side and fills the box. -/
def Fits (radius : ShapeRadius) (extent box : Extent) : Prop :=
  match radius with
  | length _ => True
  | closestSide => extent.Within box ∧ extent.Touches box
  | farthestSide => box.Within extent ∧ extent.Touches box

/-- What a keyword promises of a circle, which considers the sides along both axes. -/
def FitsCircle (radius : ShapeRadius) (circle : Ellipse) (box : Rect Length) : Prop :=
  let Touches := circle.extentX.Touches box.extentX ∨ circle.extentY.Touches box.extentY
  match radius with
  | length _ => True
  | closestSide =>
    circle.extentX.Within box.extentX ∧ circle.extentY.Within box.extentY ∧ Touches
  | farthestSide =>
    box.extentX.Within circle.extentX ∧ box.extentY.Within circle.extentY ∧ Touches

/-- The distance that a radius stands for along an axis. -/
def along (radius : ShapeRadius) (center : Length) (e : Extent) : Int :=
  radius.choose (center.units - e.start.units) (e.stop.units - center.units)

theorem touches_around {radius : ShapeRadius} {center reach : Length} {e : Extent}
    (h : reach.units = radius.along center e) (hkeyword : radius.IsKeyword) :
    (Extent.around center reach).Touches e :=
  Extent.around_touches ((radius.choose_eq_or hkeyword _ _).imp h.trans h.trans)

theorem fits_around {radius : ShapeRadius} {center reach : Length} {e : Extent}
    (h : reach.units = radius.along center e) : radius.Fits (.around center reach) e := by
  cases radius with
  | length l => trivial
  | closestSide =>
    refine ⟨?_, touches_around h trivial⟩
    simp only [along, choose] at h
    exact Extent.around_within (by omega) (by omega)
  | farthestSide =>
    refine ⟨?_, touches_around h trivial⟩
    simp only [along, choose] at h
    exact Extent.within_around (by omega) (by omega)

theorem fitsCircle_of_reach {radius : ShapeRadius} {center : Point Length} {reach : Length}
    {box : Rect Length}
    (h : reach.units =
      radius.choose (radius.along center.x box.extentX) (radius.along center.y box.extentY)) :
    radius.FitsCircle ⟨center, ⟨reach, reach⟩⟩ box := by
  let x := Extent.around center.x reach
  let y := Extent.around center.y reach
  -- The reach of a circle is that along one of the two axes, where it touches a side.
  have htouches (hkeyword : radius.IsKeyword) :
      x.Touches box.extentX ∨ y.Touches box.extentY :=
    (radius.choose_eq_or hkeyword _ _).imp (fun hx => touches_around (h.trans hx) hkeyword)
      fun hy => touches_around (h.trans hy) hkeyword
  cases radius with
  | length l => trivial
  | closestSide =>
    simp only [along, choose] at h
    have hx : x.Within box.extentX := Extent.around_within (by omega) (by omega)
    have hy : y.Within box.extentY := Extent.around_within (by omega) (by omega)
    exact ⟨hx, hy, htouches trivial⟩
  | farthestSide =>
    simp only [along, choose] at h
    have hx : box.extentX.Within x := Extent.within_around (by omega) (by omega)
    have hy : box.extentY.Within y := Extent.within_around (by omega) (by omega)
    exact ⟨hx, hy, htouches trivial⟩

/-- A radius is resolved to the distance that it stands for, if the centre lies in the box. -/
theorem units_resolve (radius : ShapeRadius) {center : Length} {e : Extent}
    (hstart : e.start ≤ center) (hstop : center ≤ e.stop)
    (hsize : e.stop.units - e.start.units ≤ 1073741823) :
    (radius.resolve center e.start e.stop).units = radius.along center e := by
  rw [Length.le_def] at hstart hstop
  cases radius with
  | length l => rfl
  | closestSide | farthestSide =>
    simp only [resolve, along, choose, Length.units_min, Length.units_max, Length.units_abs,
      Length.units_sub]
    omega

theorem units_resolveCircle (radius : ShapeRadius) (center : Point Length) (r : Rect Length) :
    (radius.resolveCircle center r).units =
      radius.choose (radius.resolve center.x r.x r.right).units
        (radius.resolve center.y r.y r.bottom).units := by
  cases radius with
  | length l => rfl
  | closestSide => exact Length.units_min _ _
  | farthestSide => exact Length.units_max _ _

end ShapeRadius

-- ════════════════════════════════════════════════════════════════════════
-- Reference boxes
-- ════════════════════════════════════════════════════════════════════════

/-- The far edges of a rectangle are lengths. -/
structure Rect.EndsExact (r : Rect Length) : Prop where
  right : r.right.units = r.units.right
  bottom : r.bottom.units = r.units.bottom

namespace Rect.EndsExact

variable {r : Rect Length}

theorem along_eq (h : r.EndsExact) (radius : ShapeRadius) (p : Point Length) :
    radius.along p.x r.extentX =
        radius.choose (r.units.gaps p.units).left (r.units.gaps p.units).right ∧
      radius.along p.y r.extentY =
        radius.choose (r.units.gaps p.units).top (r.units.gaps p.units).bottom := by
  simp only [ShapeRadius.along, extentX, extentY, h.right, h.bottom]
  exact ⟨rfl, rfl⟩

/-- Radii about a centre in a box are resolved to the distances that they stand for. -/
theorem units_resolve (h : r.EndsExact) {center : Point Length}
    (hcovers : r.units.Covers center.units) (radius : ShapeRadius) :
    (radius.resolve center.x r.x r.right).units = radius.along center.x r.extentX ∧
      (radius.resolve center.y r.y r.bottom).units = radius.along center.y r.extentY := by
  obtain ⟨⟨hleft, hright⟩, htop, hbottom⟩ := hcovers
  rw [← h.right] at hright
  rw [← h.bottom] at hbottom
  have hwidth : r.right.units - r.x.units ≤ 1073741823 := by
    have hend : r.right.units = r.x.units + r.width.units := h.right
    have := r.width.upper
    omega
  have hheight : r.bottom.units - r.y.units ≤ 1073741823 := by
    have hend : r.bottom.units = r.y.units + r.height.units := h.bottom
    have := r.height.upper
    omega
  exact ⟨radius.units_resolve (e := r.extentX) hleft hright hwidth,
    radius.units_resolve (e := r.extentY) htop hbottom hheight⟩

end Rect.EndsExact

theorem Logical.Size.units_ofPhysical (m : WritingMode) (size : FloatLayout.Size Length) :
    (ofPhysical m size).inline.units = (ofPhysical m size.units).inline ∧
      (ofPhysical m size).block.units = (ofPhysical m size.units).block := by
  rcases m with ⟨_, _ | _, _, _, _, _⟩ <;> exact ⟨rfl, rfl⟩

namespace Logical.Rect

variable {r : Rect Length} {center : FloatLayout.Point Length}
  {container : FloatLayout.Size Length}

/-- A reference box came to the page and into line-relative space, and a centre in it from the page
    into line-relative space, without coming back into the range of lengths. -/
structure CenterExact (r : Rect Length) (center : FloatLayout.Point Length)
    (container : FloatLayout.Size Length) : Prop where
  page : r.ToPhysicalExact container
  pageEnds : (r.toPhysical container).EndsExact
  area : (LineRelative.rect r container).units = LineRelative.rect r.units container.units
  areaEnds : (LineRelative.rect r container).EndsExact
  center : LineRelative.PointExact r.mode center container

/-- A radius stands for the same distance along an axis of the page as along the axis of
    line-relative space that a mode has for it. -/
theorem CenterExact.along_eq (h : r.CenterExact center container) (radiusX radiusY : ShapeRadius) :
    let page := r.toPhysical container
    let area := LineRelative.rect r container
    let placed := LineRelative.point r.mode center container
    let onPage := Size.ofPhysical r.mode
      ⟨radiusX.along center.x page.extentX, radiusY.along center.y page.extentY⟩
    let radii := Size.ofPhysical r.mode ⟨radiusX, radiusY⟩
    radii.inline.along placed.x area.extentX = onPage.inline ∧
      radii.block.along placed.y area.extentY = onPage.block := by
  intro page area placed onPage radii
  have hpage : page.units = r.units.toPhysical container.units := h.page
  have hgaps : area.units.gaps placed.units =
      (LineRelative.rect (.ofPhysical r.mode page.units container.units) container.units).gaps
        (LineRelative.point r.mode center.units container.units) := by
    have hsame : ofPhysical r.mode page.units container.units = r.units := by
      rw [hpage]
      exact ofPhysical_toPhysical container.units r.units
    rw [hsame, ← h.area, ← h.center]
  have hchosen := LineRelative.choose_gaps r.mode radiusX radiusY page.units center.units
    container.units
  dsimp only at hchosen
  rw [← hgaps, ← (h.pageEnds.along_eq radiusX center).1, ← (h.pageEnds.along_eq radiusY center).2]
    at hchosen
  exact ⟨((h.areaEnds.along_eq _ placed).1).trans hchosen.1,
    ((h.areaEnds.along_eq _ placed).2).trans hchosen.2⟩

/-- The reach of a circle is chosen from the distances along both axes, in whatever order. -/
theorem CenterExact.choose_along_eq (h : r.CenterExact center container) (radius : ShapeRadius) :
    let page := r.toPhysical container
    let area := LineRelative.rect r container
    let placed := LineRelative.point r.mode center container
    radius.choose (radius.along placed.x area.extentX) (radius.along placed.y area.extentY) =
      radius.choose (radius.along center.x page.extentX) (radius.along center.y page.extentY) := by
  intro page area placed
  obtain ⟨hinline, hblock⟩ := h.along_eq radius radius
  cases hvertical : r.mode.vertical with
  | false =>
    simp only [Size.ofPhysical, hvertical, Bool.false_eq_true, if_false] at hinline hblock
    rw [hinline, hblock]
  | true =>
    simp only [Size.ofPhysical, hvertical, if_true] at hinline hblock
    rw [hinline, hblock, radius.choose_comm]

/-- A circle whose centre lies in its reference box fits the box in line-relative space. -/
theorem CenterExact.circle_fits (h : r.CenterExact center container)
    (hcovers : (r.toPhysical container).units.Covers center.units) (radius : ShapeRadius) :
    let reach := radius.resolveCircle center (r.toPhysical container)
    radius.FitsCircle ⟨LineRelative.point r.mode center container, ⟨reach, reach⟩⟩
      (LineRelative.rect r container) := by
  intro reach
  apply ShapeRadius.fitsCircle_of_reach
  obtain ⟨hx, hy⟩ := h.pageEnds.units_resolve hcovers radius
  rw [h.choose_along_eq, radius.units_resolveCircle, hx, hy]

/-- An ellipse whose centre lies in its reference box fits the box along either axis of
    line-relative space, as the radius says that its mode has for the axis. -/
theorem CenterExact.ellipse_fits (h : r.CenterExact center container)
    (hcovers : (r.toPhysical container).units.Covers center.units)
    (radiusX radiusY : ShapeRadius) :
    let page := r.toPhysical container
    let area := LineRelative.rect r container
    let placed := LineRelative.point r.mode center container
    let reach := Size.ofPhysical r.mode
      ⟨radiusX.resolve center.x page.x page.right, radiusY.resolve center.y page.y page.bottom⟩
    let radii := Size.ofPhysical r.mode ⟨radiusX, radiusY⟩
    radii.inline.Fits (.around placed.x reach.inline) area.extentX ∧
      radii.block.Fits (.around placed.y reach.block) area.extentY := by
  intro page area placed reach radii
  obtain ⟨hinline, hblock⟩ := h.along_eq radiusX radiusY
  rw [← (h.pageEnds.units_resolve hcovers radiusX).1,
    ← (h.pageEnds.units_resolve hcovers radiusY).2] at hinline hblock
  obtain ⟨hreachInline, hreachBlock⟩ := Size.units_ofPhysical r.mode
    ⟨radiusX.resolve center.x page.x page.right, radiusY.resolve center.y page.y page.bottom⟩
  exact ⟨ShapeRadius.fits_around (hreachInline.trans hinline.symm),
    ShapeRadius.fits_around (hreachBlock.trans hblock.symm)⟩

end Logical.Rect

namespace FloatBox

/-- A circle or an ellipse whose centre lies in its reference box on the page is created in
    line-relative space as its keywords promise. With `closest-side` it stays in the reference box
    and touches one of its sides, a circle along one axis and an ellipse along either. With
    `farthest-side` it fills the reference box and touches one of its sides. -/
theorem keyword_radii_fit (box : FloatBox) (marginRect : Logical.Rect Length)
    (reference : ReferenceBox) (container : Size Length) :
    ∃ r, box.referenceRect reference marginRect.mode marginRect = .ok r ∧
      let page := r.toPhysical container
      let area := LineRelative.rect r container
      (∀ center radius, box.shapeOutside = .shape (.circle center radius) reference →
        r.CenterExact (page.origin.shift center.x center.y) container →
        page.units.Covers (page.origin.shift center.x center.y).units →
          ∃ e, Shape.ofStyle box marginRect marginRect.mode container =
              .ok (.ok (some (.ellipse e))) ∧
            radius.FitsCircle e area) ∧
      ∀ center radiusX radiusY,
        box.shapeOutside = .shape (.ellipse center radiusX radiusY) reference →
        r.CenterExact (page.origin.shift center.x center.y) container →
        page.units.Covers (page.origin.shift center.x center.y).units →
          let radii := Logical.Size.ofPhysical marginRect.mode ⟨radiusX, radiusY⟩
          ∃ e, Shape.ofStyle box marginRect marginRect.mode container =
              .ok (.ok (some (.ellipse e))) ∧
            radii.inline.Fits e.extentX area.extentX ∧ radii.block.Fits e.extentY area.extentY := by
  obtain ⟨r, hr⟩ : ∃ r, r = marginRect.shrinkAll (box.insetsOf reference) := ⟨_, rfl⟩
  have hmode : r.mode = marginRect.mode := by
    rw [hr]
    exact marginRect.shrinkAll_mode _
  have hplace (basic : BasicShape) (hshape : box.shapeOutside = .shape basic reference) :
      Shape.ofStyle box marginRect marginRect.mode container =
        .ok (.ok (some (basic.place (r.toPhysical container) r.mode container))) := by
    rw [hmode, hr]
    exact Shape.ofStyle_shape hshape marginRect
  refine ⟨r, ?_, ?_, ?_⟩
  · rw [hr]
    exact box.referenceRect_eq reference marginRect
  · intro center radius hshape hexact hcovers
    exact ⟨_, hplace _ hshape, hexact.circle_fits hcovers radius⟩
  · rw [← hmode]
    rw [← hmode] at hplace
    intro center radiusX radiusY hshape hexact hcovers
    exact ⟨_, hplace _ hshape, hexact.ellipse_fits hcovers radiusX radiusY⟩

/-- A box with another margin on each side and a shape in its border box. -/
def shaped (basic : BasicShape) : FloatBox :=
  { FloatBox.plain 2 .left with
    rect := ⟨20, 30, 100, 80⟩, margin := ⟨1, -2, 3, 4⟩
    shapeOutside := .shape basic .borderBox }

/-- Among lines that run upwards from right to left, a circle that stays in its reference box, and
    an ellipse that stays in it across the lines and fills it along them. -/
theorem shaped_keyword_radii_fit :
    let m := WritingMode.ofProperties .sidewaysLr .rtl
    let marginRect := Logical.Rect.ofPhysical m ⟨16, 29, 102, 84⟩ ⟨300, 400⟩
    let area : Rect Length := ⟨290, 20, 80, 100⟩
    (∃ circle, Shape.ofStyle (shaped (.circle ⟨60, 30⟩ .closestSide)) marginRect m ⟨300, 400⟩ =
        .ok (.ok (some (.ellipse circle))) ∧
      ShapeRadius.closestSide.FitsCircle circle area) ∧
      ∃ e, Shape.ofStyle (shaped (.ellipse ⟨60, 30⟩ .closestSide .farthestSide)) marginRect m
          ⟨300, 400⟩ = .ok (.ok (some (.ellipse e))) ∧
        (area.extentX.Within e.extentX ∧ e.extentX.Touches area.extentX) ∧
        e.extentY.Within area.extentY ∧ e.extentY.Touches area.extentY := by
  intro m marginRect area
  have hexact : ∀ r : Logical.Rect Length, r = ⟨m, 30, 20, 80, 100⟩ →
      r.CenterExact ⟨80, 60⟩ ⟨300, 400⟩ := by
    rintro r rfl
    exact ⟨rfl, ⟨rfl, rfl⟩, rfl, ⟨rfl, rfl⟩, rfl⟩
  constructor
  · obtain ⟨r, hr, hcircle, -⟩ := (shaped (.circle ⟨60, 30⟩ .closestSide)).keyword_radii_fit
      marginRect .borderBox ⟨300, 400⟩
    cases hr
    exact hcircle _ _ rfl (hexact _ rfl) ⟨by decide, by decide⟩
  · obtain ⟨r, hr, -, hellipse⟩ :=
      (shaped (.ellipse ⟨60, 30⟩ .closestSide .farthestSide)).keyword_radii_fit
        marginRect .borderBox ⟨300, 400⟩
    cases hr
    exact hellipse _ _ _ rfl (hexact _ rfl) ⟨by decide, by decide⟩

end FloatBox

end FloatLayout
