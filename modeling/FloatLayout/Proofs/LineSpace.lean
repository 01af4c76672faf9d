import FloatLayout.Proofs.BaseDirection

/-!
# Points and rectangles in line-relative space

Points come into line-relative space by a conversion of their own, which turns reversed axes round
and swaps the axes of vertical modes as the conversion of rectangles does. So a point lies in a
rectangle there exactly if it does on the page, and no two points come closer or move apart.

## Main definitions

- `Rect.Covers`: a point lies in a rectangle or on its sides.
- `Point.apart`: how far two points lie apart along each axis.
- `LineRelative.point_covered_iff`: points and rectangles come into one space.
-/

namespace FloatLayout

/-- A point lies in a rectangle or on one of its sides. -/
def Rect.Covers (r : Rect Int) (p : Point Int) : Prop :=
  (r.x ≤ p.x ∧ p.x ≤ r.right) ∧ r.y ≤ p.y ∧ p.y ≤ r.bottom

/-- How far two points lie apart along each axis. -/
def Point.apart (p q : Point Int) : Size Nat := ⟨(p.x - q.x).natAbs, (p.y - q.y).natAbs⟩

namespace LineRelative

section WholeNumbers

variable (m : WritingMode) (r : Rect Int) (p q : Point Int) (container : Size Int)

/-- A point in line-relative space, whose axes are those of the page, swapped if lines are vertical,
    and each measured from the other end of the container if it is reversed. -/
theorem point_eq :
    point m p container =
      ⟨if m.vertical then if m.inlineReversed then container.height - p.y else p.y else p.x,
        if m.vertical then if m.verticalLr then p.x else container.width - p.x else p.y⟩ := by
  rw [point, lineRelative_ofPhysical]
  rfl

theorem rect_ofPhysical :
    rect (.ofPhysical m r container) container =
      ⟨if m.vertical then if m.inlineReversed then container.height - r.bottom else r.y else r.x,
        if m.vertical then if m.verticalLr then r.x else container.width - r.right else r.y,
        if m.vertical then r.height else r.width, if m.vertical then r.width else r.height⟩ := by
  rw [rect, lineLeft_ofPhysical]
  rfl

theorem covers_point_iff :
    (rect (.ofPhysical m r container) container).Covers (point m p container) ↔ r.Covers p := by
  rw [point_eq, rect_ofPhysical]
  rcases m with ⟨_, _ | _, _ | _, _, _, _ | _⟩ <;>
    simp only [Rect.Covers, Rect.right, Rect.bottom, if_true, if_false, Bool.false_eq_true] <;>
    omega

theorem apart_point :
    (point m p container).apart (point m q container) =
      ⟨(Logical.Size.ofPhysical m (p.apart q)).inline,
        (Logical.Size.ofPhysical m (p.apart q)).block⟩ := by
  rw [point_eq, point_eq]
  rcases m with ⟨_, _ | _, _ | _, _, _, _ | _⟩ <;>
    simp only [Point.apart, Logical.Size.ofPhysical, if_true, if_false, Bool.false_eq_true,
      Size.mk.injEq, true_and, and_true] <;>
    omega

end WholeNumbers

/-- A point lies in a rectangle in line-relative space exactly if it does on the page, and two points
    lie apart along the lines and across them as they do along the axes of the page that a mode has
    for them. -/
theorem point_covered_iff {m : WritingMode} {container : Size Length} {r : Rect Length}
    {p q : Point Length} (hr : RectExact m r [] container) (hp : PointExact m p container)
    (hq : PointExact m q container) :
    ∃ image, rectIn m (.ofPhysical m r container) container = .ok image ∧
      (image.units.Covers (point m p container).units ↔ r.units.Covers p.units) ∧
      (point m p container).units.apart (point m q container).units =
        ⟨(Logical.Size.ofPhysical m (p.units.apart q.units)).inline,
          (Logical.Size.ofPhysical m (p.units.apart q.units)).block⟩ := by
  have himage : (rect (.ofPhysical m r container) container).units =
      rect (.ofPhysical m r.units container.units) container.units := hr
  refine ⟨rect (.ofPhysical m r container) container, ?_, ?_, ?_⟩
  · rw [rectIn, Logical.within, Logical.Rect.ofPhysical, Logical.expectMode_self]
    rfl
  · rw [himage, hp, covers_point_iff]
  · rw [hp, hq, apart_point]

/-- A corner of a rectangle, and another point, where lines run upwards. -/
theorem sidewaysLr_point_covered_iff :
    let m := WritingMode.ofProperties .sidewaysLr .ltr
    ∃ image, rectIn m (.ofPhysical m ⟨20, 30, 40, 50⟩ ⟨300, 400⟩) ⟨300, 400⟩ = .ok image ∧
      image.units.Covers (point m ⟨60, 80⟩ ⟨300, 400⟩).units ∧
      (point m ⟨60, 80⟩ ⟨300, 400⟩).units.apart (point m ⟨61, 30⟩ ⟨300, 400⟩).units = ⟨50, 1⟩ := by
  intro m
  have hr : RectExact m ⟨20, 30, 40, 50⟩ [] ⟨300, 400⟩ := rfl
  have hp : PointExact m ⟨60, 80⟩ ⟨300, 400⟩ := rfl
  have hq : PointExact m ⟨61, 30⟩ ⟨300, 400⟩ := rfl
  obtain ⟨image, himage, hcovers, hapart⟩ := point_covered_iff hr hp hq
  exact ⟨image, himage, hcovers.2 ⟨by decide, by decide⟩, hapart⟩

end LineRelative

end FloatLayout
