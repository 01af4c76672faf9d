import FloatLayout.Proofs.Conversion

/-!
# Collapsed regions

Negative margins may turn the margin box of a float inside out. Its region then has no size. It
stays at the edge of the margin box that faces away from the float's side, where content comes next,
whichever end of the line that is in the writing mode of the container.

## Main definitions

- `Logical.Rect.collapse_lineEdge`: the edge that a collapsed rectangle keeps.
- `FloatBox.region_collapses`: the region of a float beside its border box grown by the margin.

## Design notes

None of this needs exact sums. A collapsed rectangle has no inline size, and adding nothing to a
position is exact wherever the position lies.
-/

namespace FloatLayout

theorem Length.max_zero_eq (a : Length) : max 0 a = if a < 0 then 0 else a := by
  apply Length.ext
  rw [Length.units_max, apply_ite Length.units]
  simp only [Length.lt_def, Length.units_zero]
  omega

namespace Logical.Rect

variable {r : Rect Length}

theorem collapse_inlineStart_of_nonneg (h : ¬r.inlineSize < 0) (side : Option LineSide) :
    (r.collapse side).inlineStart = r.inlineStart := if_neg fun hcollapses => h hcollapses.1

/-- Where lines start on the float's own side, a collapsed rectangle moves to its end. -/
theorem collapse_inlineStart_of_neg (h : r.inlineSize < 0) (side : LineSide) :
    (r.collapse (some side)).inlineStart =
      if decide (side = .left) = r.mode.isLtr then r.inlineEnd else r.inlineStart := by
  simp only [collapse, h, true_and, Option.some.injEq, beq_iff_eq]

theorem collapse_inlineEnd_of_neg (h : r.inlineSize < 0) (side : Option LineSide) :
    (r.collapse side).inlineEnd = (r.collapse side).inlineStart := by
  have hsize : (r.collapse side).inlineSize = 0 := if_pos h
  rw [inlineEnd, hsize, Length.add_zero]

/-- A rectangle of negative inline size collapses to its edge away from the float's side. -/
theorem collapse_lineEdge (h : r.inlineSize < 0) (side : LineSide)
    (container : FloatLayout.Size Length) :
    (r.collapse (some side)).lineEdge container side.opposite =
      r.lineEdge container side.opposite := by
  have hmode : (r.collapse (some side)).mode = r.mode := rfl
  have hend := collapse_inlineEnd_of_neg h (some side)
  rw [collapse_inlineStart_of_neg h] at hend
  cases side with
  | left =>
    simp only [LineSide.opposite, lineEdge, lineRight, hmode, hend, collapse_inlineStart_of_neg h]
    cases r.mode.isLtr <;> rfl
  | right =>
    simp only [LineSide.opposite, lineEdge, lineLeft, hmode, hend, collapse_inlineStart_of_neg h]
    cases r.mode.isLtr <;> rfl

end Logical.Rect

theorem FloatValue.exists_side?_eq {value : FloatValue} (h : value ≠ .none) (m : WritingMode) :
    ∃ side, value.side? m = some side := by
  cases value with
  | none => exact absurd rfl h
  | left | right | inlineStart | inlineEnd => exact ⟨_, rfl⟩

namespace FloatBox

/-- The region of a float is its border box at its normal position, grown by a margin of either
    sign, as long as that has a size. Without an inline size it lies at the edge that faces away
    from the float's side, without a block size at the block start. -/
theorem region_collapses {m : WritingMode} (box : FloatBox) (margin : Logical.Margin Length)
    (container : Size Length) (hfloat : box.float ≠ .none) (hmargin : margin.mode = m) :
    ∃ side grown region, box.float.side? m = some side ∧
      (Logical.Rect.ofPhysical m box.normalRect container).inflate m margin = .ok grown ∧
      box.region m margin container = .ok region ∧ region.mode = m ∧
      region.inlineSize = max 0 grown.inlineSize ∧ region.blockSize = max 0 grown.blockSize ∧
      region.blockStart = grown.blockStart ∧
      (grown.inlineSize < 0 →
        region.lineEdge container side.opposite = grown.lineEdge container side.opposite) ∧
      (¬grown.inlineSize < 0 → region.inlineStart = grown.inlineStart) := by
  obtain ⟨side, hside⟩ := FloatValue.exists_side?_eq hfloat m
  have hgrown : (Logical.Rect.ofPhysical m box.normalRect container).inflate m margin =
      .ok ((Logical.Rect.ofPhysical m box.normalRect container).grow margin) :=
    Logical.Rect.inflate_eq rfl hmargin
  refine ⟨side, _, _, hside, hgrown, bind_eq_ok_iff.2 ⟨_, hgrown, rfl⟩, rfl, ?_⟩
  rw [hside]
  exact ⟨(Length.max_zero_eq _).symm, (Length.max_zero_eq _).symm, rfl,
    fun hneg => Logical.Rect.collapse_lineEdge hneg side container,
    fun hnonneg => Logical.Rect.collapse_inlineStart_of_nonneg hnonneg _⟩

/-- A box that was moved away from its normal position. -/
def shifted : FloatBox :=
  { FloatBox.plain 3 .inlineEnd with rect := ⟨15, 25, 30, 40⟩, normalPosition := ⟨10, 20⟩ }

/-- A float at the end of lines that run upwards from right to left, with more than its size taken
    away along the line and across it. -/
theorem shifted_region_collapses :
    let m := WritingMode.ofProperties .sidewaysLr .rtl
    ∃ region, shifted.region m ⟨m, 3, -50, -60, 2⟩ ⟨100, 100⟩ = .ok region ∧
      shifted.float.side? m = some .left ∧ region.inlineSize = 0 ∧ region.blockSize = 0 ∧
      region.blockStart = 7 ∧ region.lineRight ⟨100, 100⟩ = 82 := by
  intro m
  obtain ⟨side, grown, region, hside, hgrown, hregion, -, hinline, hblock, hstart, hedge, -⟩ :=
    shifted.region_collapses ⟨m, 3, -50, -60, 2⟩ ⟨100, 100⟩ nofun rfl
  cases hside
  cases hgrown
  exact ⟨region, hregion, rfl, hinline, hblock, hstart, hedge (by decide)⟩

end FloatBox

end FloatLayout
