import FloatLayout.Proofs.FlowAnswer

/-!
# Base directions

The base direction says at which end a line starts. Line-relative positions and physical ones do not
depend on it, as far as they are computed in whole numbers: a conversion to a flow-relative position
and the way back from it turn the line round twice.

## Main definitions

- `WritingMode.facing`: a mode with another base direction.
- `Rect.less`, `Rect.more`: a rectangle less the offsets of its sides, and with them added.
- `Logical.Rect.shrinkAll`: a rectangle less the offsets of its sides, any number of times.
- `LineRelative.RectExact`, `LineRelative.PointExact`, `Logical.Rect.PhysicalExact`: a conversion of
  lengths gives what the same conversion of whole numbers gives.
- `LineRelative.RectExact.rect_eq`, `LineRelative.PointExact.point_eq`,
  `Logical.Rect.PhysicalExact.toPhysical_eq`: such conversions agree in both base directions.
-/

namespace FloatLayout

/-- A point in whole numbers. -/
def Point.units (p : Point Length) : Point Int := ⟨p.x.units, p.y.units⟩

/-- Side offsets in whole numbers. -/
def Sides.units (s : Sides Length) : Sides Int :=
  ⟨s.top.units, s.right.units, s.bottom.units, s.left.units⟩

/-- A rectangle in whole numbers. -/
def Rect.units (r : Rect Length) : Rect Int := ⟨r.x.units, r.y.units, r.width.units, r.height.units⟩

theorem Point.units_inj {p q : Point Length} (h : p.units = q.units) : p = q := by
  rcases p with ⟨px, py⟩
  rcases q with ⟨qx, qy⟩
  simp only [units, Point.mk.injEq, ← Length.ext_iff] at h
  rw [h.1, h.2]

theorem Rect.units_inj {r s : Rect Length} (h : r.units = s.units) : r = s := by
  rcases r with ⟨rx, ry, rw, rh⟩
  rcases s with ⟨sx, sy, sw, sh⟩
  simp only [units, Rect.mk.injEq, ← Length.ext_iff] at h
  obtain ⟨rfl, rfl, rfl, rfl⟩ := h
  rfl

theorem Logical.Rect.units_inj {r s : Logical.Rect Length} (h : r.units = s.units) : r = s := by
  rcases r with ⟨m, ri, rb, rw, rh⟩
  rcases s with ⟨n, si, sb, sw, sh⟩
  simp only [units, Rect.mk.injEq, ← Length.ext_iff] at h
  obtain ⟨rfl, rfl, rfl, rfl, rfl⟩ := h
  rfl

/-- A mode with lines and blocks in the same directions and a base direction of its own. -/
def WritingMode.facing (m : WritingMode) (direction : Direction) : WritingMode :=
  { m with rtl := direction = .rtl }

theorem WritingMode.ofProperties_eq_facing (property : WritingModeProperty)
    (direction : Direction) :
    ofProperties property direction = (ofProperties property .ltr).facing direction := by
  cases property <;> rfl

/-- A rectangle of whole numbers less the offsets of its sides. -/
def Rect.less (r : Rect Int) (s : Sides Int) : Rect Int :=
  ⟨r.x + s.left, r.y + s.top, r.width - s.horizontal, r.height - s.vertical⟩

/-- A rectangle of whole numbers with the offsets of its sides added. -/
def Rect.more (r : Rect Int) (s : Sides Int) : Rect Int :=
  ⟨r.x - s.left, r.y - s.top, r.width + s.horizontal, r.height + s.vertical⟩

theorem Rect.less_more (r : Rect Int) (s : Sides Int) : (r.more s).less s = r := by
  simp only [more, less, Int.sub_add_cancel, Int.add_sub_cancel]

/-- A rectangle less the offsets of its sides, one after the other. -/
def Logical.Rect.shrinkAll {α : Type} [Add α] [Sub α] (r : Logical.Rect α)
    (insets : List (Sides α)) : Logical.Rect α :=
  insets.foldl (fun r sides => r.shrink (.ofPhysical r.mode sides)) r

-- ════════════════════════════════════════════════════════════════════════
-- Whole numbers
-- ════════════════════════════════════════════════════════════════════════

section WholeNumbers

variable (m : WritingMode) (direction : Direction) (r : Rect Int) (p : Point Int)
  (container : Size Int)

/-- The line-left edge of a physical rectangle. The base direction plays no part. -/
theorem lineLeft_ofPhysical :
    (Logical.Rect.ofPhysical m r container).lineLeft container =
      if m.vertical then if m.inlineReversed then container.height - r.bottom else r.y
      else r.x := by
  rcases m with ⟨_ | _, _ | _, _, _, _, _ | _⟩ <;>
    simp [Logical.Rect.ofPhysical, Logical.Rect.lineLeft, Logical.Rect.inlineEnd,
      WritingMode.isLtr, WritingMode.isInlineTb, WritingMode.inlineSizeOf, Rect.right,
      Rect.bottom] <;> omega

theorem lineRelative_ofPhysical :
    (Logical.Point.ofPhysical m p container).lineRelative container =
      if m.vertical then if m.inlineReversed then container.height - p.y else p.y else p.x := by
  -- The base direction turns the line round twice or not at all.
  rcases m with ⟨_ | _, _ | _, _, _, _, _ | _⟩ <;> first | rfl | exact Int.sub_sub_self _ _

theorem rect_facing :
    LineRelative.rect (.ofPhysical (m.facing direction) r container) container =
      LineRelative.rect (.ofPhysical m r container) container := by
  rw [LineRelative.rect, LineRelative.rect, lineLeft_ofPhysical, lineLeft_ofPhysical]
  rfl

theorem lineEdge_facing (side : LineSide) :
    (Logical.Rect.ofPhysical (m.facing direction) r container).lineEdge container side =
      (Logical.Rect.ofPhysical m r container).lineEdge container side := by
  have hleft := congrArg Rect.x (rect_facing m direction r container)
  have hsize := FloatContext.lineEdge_right_sub_left (Logical.Rect.ofPhysical m r container) container
  have hsize' :=
    FloatContext.lineEdge_right_sub_left (.ofPhysical (m.facing direction) r container) container
  have hinline : (Logical.Rect.ofPhysical (m.facing direction) r container).inlineSize =
      (Logical.Rect.ofPhysical m r container).inlineSize := rfl
  change Logical.Rect.lineEdge _ container .left = Logical.Rect.lineEdge _ container .left at hleft
  cases side with
  | left => exact hleft
  | right => omega

theorem point_facing :
    LineRelative.point (m.facing direction) p container = LineRelative.point m p container := by
  dsimp only [LineRelative.point]
  rw [lineRelative_ofPhysical, lineRelative_ofPhysical]
  rfl

theorem toPhysical_ofPhysical :
    (Logical.Rect.ofPhysical m r container).toPhysical container = r := by
  rcases r with ⟨x, y, width, height⟩
  rcases m with ⟨_ | _, _ | _, _ | _, _, _, _ | _⟩ <;>
    simp [Logical.Rect.ofPhysical, Logical.Rect.toPhysical, Logical.Rect.inlineEnd,
      Logical.Rect.blockEnd, WritingMode.isLtr, WritingMode.isInlineTb, Rect.right,
      Rect.bottom] <;> omega

theorem ofPhysical_toPhysical (r : Logical.Rect Int) :
    Logical.Rect.ofPhysical r.mode (r.toPhysical container) container = r := by
  rcases r with ⟨⟨_ | _, _ | _, _ | _, _, _, _ | _⟩, ri, rb, rw, rh⟩ <;>
    simp [Logical.Rect.ofPhysical, Logical.Rect.toPhysical, Logical.Rect.inlineEnd,
      Logical.Rect.blockEnd, WritingMode.isLtr, WritingMode.isInlineTb, Rect.right,
      Rect.bottom] <;> omega

/-- What a flow-relative rectangle looks like from line-left is enough to find it on the page. -/
theorem toPhysical_congr {r s : Logical.Rect Int} (hmode : s.mode = r.mode.facing direction)
    (hleft : s.lineLeft container = r.lineLeft container) (hinline : s.inlineSize = r.inlineSize)
    (hstart : s.blockStart = r.blockStart) (hblock : s.blockSize = r.blockSize) :
    s.toPhysical container = r.toPhysical container := by
  rcases r with ⟨⟨_ | _, _ | _, _ | _, _, _, _ | _⟩, ri, rb, rw, rh⟩ <;> cases direction <;>
    simp_all [Logical.Rect.toPhysical, Logical.Rect.lineLeft, Logical.Rect.inlineEnd,
      Logical.Rect.blockEnd, WritingMode.facing, WritingMode.isLtr, WritingMode.isInlineTb,
      WritingMode.inlineSizeOf] <;> omega

theorem shrink_ofPhysical (sides : Sides Int) :
    (Logical.Rect.ofPhysical m r container).shrink (.ofPhysical m sides) =
      .ofPhysical m (r.less sides) container := by
  rcases m with ⟨_ | _, _ | _, _ | _, _, _, _ | _⟩ <;>
    simp [Logical.Rect.ofPhysical, Logical.Rect.shrink, Logical.Margin.ofPhysical,
      Logical.Margin.inlineStartEnd, Logical.Margin.blockStartEnd, WritingMode.isLtr,
      WritingMode.isInlineTb, Rect.right, Rect.bottom, Rect.less, Sides.horizontal,
      Sides.vertical] <;> omega

theorem grow_shrink (r : Logical.Rect Int) (g : Logical.Margin Int) :
    (r.shrink g).grow g = r := by
  simp only [Logical.Rect.grow, Logical.Rect.shrink, Int.add_sub_cancel, Int.sub_add_cancel]

/-- Growing a rectangle and converting it may be done in either order, since that is true of
    shrinking what it has grown to. -/
theorem grow_ofPhysical (sides : Sides Int) :
    (Logical.Rect.ofPhysical m r container).grow (.ofPhysical m sides) =
      .ofPhysical m (r.more sides) container := by
  have hshrink := shrink_ofPhysical m (r.more sides) container sides
  rw [Rect.less_more] at hshrink
  rw [← hshrink, grow_shrink]

/-- Shrinking a rectangle and converting it may be done in either order. -/
theorem shrinkAll_ofPhysical (insets : List (Sides Int)) :
    (Logical.Rect.ofPhysical m r container).shrinkAll insets =
      .ofPhysical m (insets.foldl Rect.less r) container := by
  induction insets generalizing r with
  | nil => rfl
  | cons sides rest ih =>
    change ((Logical.Rect.ofPhysical m r container).shrink (.ofPhysical m sides)).shrinkAll rest = _
    rw [shrink_ofPhysical, ih]
    rfl

end WholeNumbers

-- ════════════════════════════════════════════════════════════════════════
-- Lengths
-- ════════════════════════════════════════════════════════════════════════

section Lengths

variable {m : WritingMode} {direction : Direction} {r : FloatLayout.Rect Length}
  {p : FloatLayout.Point Length} {insets : List (Sides Length)} {container : FloatLayout.Size Length}

/-- A physical rectangle was converted, shrunk and brought into line-relative space without coming
    back into the range of lengths. -/
def LineRelative.RectExact (m : WritingMode) (r : Rect Length) (insets : List (Sides Length))
    (container : Size Length) : Prop :=
  (rect ((Logical.Rect.ofPhysical m r container).shrinkAll insets) container).units =
    rect ((Logical.Rect.ofPhysical m r.units container.units).shrinkAll (insets.map Sides.units))
      container.units

/-- A physical point was brought into line-relative space without coming back into the range of
    lengths. -/
def LineRelative.PointExact (m : WritingMode) (p : Point Length) (container : Size Length) : Prop :=
  (point m p container).units = point m p.units container.units

/-- A physical rectangle was converted, shrunk and converted back without coming back into the range
    of lengths. -/
def Logical.Rect.PhysicalExact (m : WritingMode) (r : FloatLayout.Rect Length)
    (insets : List (Sides Length)) (container : FloatLayout.Size Length) : Prop :=
  (((ofPhysical m r container).shrinkAll insets).toPhysical container).units =
    ((ofPhysical m r.units container.units).shrinkAll (insets.map Sides.units)).toPhysical
      container.units

theorem LineRelative.RectExact.rect_eq (h : RectExact m r insets container)
    (h' : RectExact (m.facing direction) r insets container) :
    rect ((Logical.Rect.ofPhysical (m.facing direction) r container).shrinkAll insets) container =
      rect ((Logical.Rect.ofPhysical m r container).shrinkAll insets) container := by
  apply Rect.units_inj
  rw [h, h', shrinkAll_ofPhysical, shrinkAll_ofPhysical, rect_facing]

theorem LineRelative.PointExact.point_eq (h : PointExact m p container)
    (h' : PointExact (m.facing direction) p container) :
    point (m.facing direction) p container = point m p container := by
  apply Point.units_inj
  rw [h, h', point_facing]

theorem Logical.Rect.PhysicalExact.toPhysical_eq (h : PhysicalExact m r insets container)
    (h' : PhysicalExact (m.facing direction) r insets container) :
    ((ofPhysical (m.facing direction) r container).shrinkAll insets).toPhysical container =
      ((ofPhysical m r container).shrinkAll insets).toPhysical container := by
  apply FloatLayout.Rect.units_inj
  rw [h, h', shrinkAll_ofPhysical, shrinkAll_ofPhysical, toPhysical_ofPhysical,
    toPhysical_ofPhysical]

end Lengths

end FloatLayout
