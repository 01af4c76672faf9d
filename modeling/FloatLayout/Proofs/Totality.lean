import FloatLayout.Proofs.ArcExtent
import FloatLayout.Proofs.FlowAnswer
import Mathlib

/-!
# Questions that cannot fail

A question with its preconditions has an answer wherever it is asked, and wherever the containing
block lies. Sums that come back into the range of lengths keep the order of what they are computed
from, so that no band, no box and no segment ends before it starts, and shapes that such a sum
flattened are still asked only for what they have.

## Main definitions

- `PixelRun.InRange`: the extent of a pixel run is a length.
- `Shape.cornersOn`: the corners of a shape at the ends of a side.
- `FloatContext.contentEdge_left_le_right`: the content area does not end before it starts.
- `FloatContext.Reachable.flowArea_succeeds`: a question has an answer.
-/

namespace FloatLayout

variable {side : LineSide} {band : Band}

/-- The width and the height of a run, which are products of pixel counts, are in the range of
    lengths. -/
def PixelRun.InRange (r : PixelRun) : Prop :=
  r.width.natAbs ≤ 1073741823 ∧ r.height.natAbs ≤ 1073741823

instance (r : PixelRun) : Decidable r.InRange := inferInstanceAs (Decidable (_ ∧ _))

theorem PixelRun.InRange.bounded {r : PixelRun} (h : r.InRange) : r.Bounded := by
  obtain ⟨hwidth, hheight⟩ := h
  have := r.x.lower
  have := r.x.upper
  have := r.y.lower
  have := r.y.upper
  simp only [Bounded, Word.Fits, Word.limit]
  omega

namespace Shape

/-- The extents of all pixel runs are lengths. -/
def PixelsInRange : Shape → Prop
  | .pixels a => ∀ r ∈ a.runs, r.InRange
  | .roundedBox _ | .ellipse _ | .polygon _ => True

theorem PixelsInRange.bounded {shape : Shape} (h : shape.PixelsInRange) : shape.Bounded := by
  cases shape with
  | pixels a => exact fun r hr => (h r hr).bounded
  | roundedBox b => trivial
  | ellipse e => trivial
  | polygon p => trivial

/-- The corners at the ends of a side, with the block range of the shape, if arcs may draw the side
    in. -/
def cornersOn (side : LineSide) : Shape → Option (SideCorners × Band)
  | .roundedBox b => b.radii.map fun radii => (radii.ofSide side, ⟨b.blockStart, b.blockEnd⟩)
  | .ellipse e => some (e.corners, ⟨e.blockStart, e.blockEnd⟩)
  | .polygon _ | .pixels _ => none

/-- Each corner of a shape that is not empty is asked for an arc at a height that the arc has. -/
theorem indent_draws_of_cornersOn {shape : Shape} {corners : SideCorners} {box : Band}
    (hfull : shape.isEmpty = false) (hcorners : shape.cornersOn side = some (corners, box))
    (hband : band.start ≤ band.stop) :
    ∃ distance, corners.indent box band = .ok distance ∧ corners.Draws distance := by
  refine SideCorners.indent_draws ?_ hband
  cases shape with
  | roundedBox b =>
    obtain ⟨radii, -, hbox⟩ := Option.map_eq_some_iff.1 hcorners
    cases hbox
    exact Rect.y_le_bottom (of_decide_eq_false hfull)
  | ellipse e =>
    cases hcorners
    exact Ellipse.blockStart_le_blockEnd (of_decide_eq_false hfull)
  | polygon p => cases hcorners
  | pixels a => cases hcorners

end Shape

namespace FloatContext

variable {c : FloatContext} {q : FlowQuery}

/-- The extents of all pixel runs of the shapes that a question sees are lengths. -/
def PixelsInRange (c : FloatContext) (q : FlowQuery) : Prop :=
  ∀ f ∈ c.visible q, ∀ shape ∈ f.areaShape q.area, shape.PixelsInRange

theorem PixelsInRange.runsBounded (h : c.PixelsInRange q) : c.RunsBounded q :=
  fun f hf shape hshape => (h f hf shape hshape).bounded

/-- The content area does not end before it starts, even if its edges were brought back into the
    range of lengths. -/
theorem contentEdge_left_le_right (h : 0 ≤ q.content.inlineSize) :
    c.contentEdge q .left ≤ c.contentEdge q .right := by
  have := q.content.inlineStart.upper
  unfold contentEdge Logical.Rect.lineEdge Logical.Rect.lineLeft Logical.Rect.lineRight
    Logical.Rect.inlineEnd
  simp only [Length.le_def, Length.units_zero] at *
  split
  · simp only [Length.units_add]
    omega
  · simp only [Length.units_add, Length.units_sub]
    omega

/-- The walk starts with the whole content area. -/
theorem clearingOf_eq_of_nonneg (h : 0 ≤ q.content.inlineSize) :
    c.clearingOf q = ⟨c.stopOf q, c.contentEdge q .left, c.contentEdge q .right, false⟩ := by
  rw [clearingOf_eq, if_neg (not_lt.2 (contentEdge_left_le_right h))]

theorem clearingOf_edgeOn_eq (h : 0 ≤ q.content.inlineSize) (side : LineSide) :
    (c.clearingOf q).edgeOn side = c.contentEdge q side := by
  rw [clearingOf_eq_of_nonneg h]
  cases side <;> rfl

theorem Reachable.flowArea_succeeds (h : c.Reachable) (hadmits : c.Admits q)
    (hcontent : q.content.mode = q.mode) (hruns : c.RunsBounded q) : Succeeds (c.flowArea q) := by
  by_cases hbelow : c.BelowAll q
  · exact ⟨_, flowArea_eq_ok_iff.2 ⟨hadmits, .inl ⟨hbelow, rfl⟩⟩⟩
  · obtain ⟨t, ht, -, -, -⟩ := h.flowArea_eq_answer hadmits hcontent hruns hbelow
    exact ⟨_, ht⟩

/-- Floats with shapes of three kinds, at the greatest inline positions. -/
def brinkHistory : List Operation :=
  let corner : CornerRadius Length := ⟨20, 20⟩
  let triangle : ShapeOutside := .shape (.polygon [⟨30, 0⟩, ⟨60, 50⟩, ⟨40, 100⟩]) .marginBox
  let mask : AlphaMask := ⟨#[255, 255], 2, ⟨2, 1⟩⟩
  [.translate 1073741800 0,
    .add { FloatBox.plain 1 .left with
        shapeOutside := .box .marginBox, radii := some ⟨corner, corner, corner, corner⟩ }
      ⟨.horizontalTb, 0, 0, 100, 100⟩ .horizontalTb ⟨200, 1000⟩,
    .add { FloatBox.plain 2 .right with shapeOutside := triangle }
      ⟨.horizontalTb, 100, 0, 100, 100⟩ .horizontalTb ⟨200, 1000⟩,
    .add { FloatBox.plain 3 .left with
        shapeOutside := .image (.finite 0), rect := ⟨0, 0, 120, 60⟩, render := fun _ => some mask }
      ⟨.horizontalTb, 0, 0, 120, 60⟩ .horizontalTb ⟨200, 1000⟩]

/-- The corners on a side of the rounded box of `brinkHistory`. -/
def brinkCorners : SideCorners := ⟨⟨20, 20⟩, ⟨20, 20⟩⟩

/-- The context after `brinkHistory`. Its triangle has become a line, but it is not empty. -/
def brink : FloatContext :=
  let corner : CornerRadius Length := ⟨20, 20⟩
  { new .horizontalTb with
    offset := ⟨1073741800, 0⟩
    floats :=
      [⟨3, .left, ⟨1073741800, 0, 120, 60⟩, 100, 100,
          some (.pixels ⟨#[⟨1073741800, 0, 120, 60⟩], 0, 60⟩)⟩,
        ⟨2, .right, ⟨1073741823, 0, 100, 100⟩, 100, 100,
          some (.polygon ⟨[⟨1073741823, 0⟩, ⟨1073741823, 50⟩, ⟨1073741823, 100⟩], false, 0, 100⟩)⟩,
        ⟨1, .left, ⟨1073741800, 0, 100, 100⟩, 100, .least,
          some (.roundedBox ⟨⟨1073741800, 0, 100, 100⟩, some ⟨corner, corner, corner, corner⟩⟩)⟩] }

theorem brink_reachable : brink.Reachable := by
  have h : (new .horizontalTb).run brinkHistory = .ok brink := by cbv
  exact (Reachable.new .horizontalTb).run h

/-- A question for lines beside an arc of the rounded box of `brink`. -/
def besideBrink : FlowQuery where
  mode := .horizontalTb
  blockStart := 10
  blockSize := 5
  kind := .withinHeight
  area := .shapeOutside
  content := ⟨.horizontalTb, 0, 0, 200, 0⟩
  checkpoint := none
  container := ⟨200, 1000⟩

/-- A question with its preconditions has an answer, at every position and with every offset of the
    containing block. Every float that counts has an edge, and no arc of its shape is asked for at a
    height that the arc does not have. The content area does not end before it starts, so the walk
    starts with both its edges. -/
theorem Reachable.flowArea_never_faults (h : c.Reachable) (hadmits : c.Admits q)
    (hcontent : q.content.mode = q.mode) (hpixels : c.PixelsInRange q) :
    (∃ a, c.flowArea q = .ok a) ∧
      (∀ f ∈ c.visible q, f.Counts q.area (c.linesOf q) →
        Succeeds (f.edge q.area f.side.opposite (c.linesOf q)) ∧
          ∀ shape ∈ f.areaShape q.area, ∀ corners box,
            shape.cornersOn f.side.opposite = some (corners, box) →
              ∃ distance, corners.indent box (c.linesOf q) = .ok distance ∧
                corners.Draws distance) ∧
      c.contentEdge q .left ≤ c.contentEdge q .right ∧
      ∀ side, (c.clearingOf q).edgeOn side = c.contentEdge q side := by
  have hruns := hpixels.runsBounded
  have hlines := linesOf_start_le_stop (c := c) hadmits.blockSize
  refine ⟨h.flowArea_succeeds hadmits hcontent hruns, fun f hf hcounts => ⟨?_, ?_⟩,
    contentEdge_left_le_right hadmits.inlineSize, clearingOf_edgeOn_eq hadmits.inlineSize⟩
  · exact edge_succeeds_of_counts hadmits.blockSize hruns f hf hcounts
  · intro shape hshape corners box hcorners
    have hfull := hcounts.1
    unfold PlacedFloat.isEmpty at hfull
    rw [hshape] at hfull
    exact Shape.indent_draws_of_cornersOn hfull hcorners hlines

/-- Beside the floats of `brink`, the arc of the rounded box is asked for at height 5. -/
theorem brink_flowArea_never_faults :
    brink.Reachable ∧ brink.PixelsInRange besideBrink ∧
      (∃ a, brink.flowArea besideBrink = .ok a) ∧
      (∃ distance, brinkCorners.indent ⟨0, 100⟩ ⟨10, 15⟩ = .ok distance ∧
        brinkCorners.Draws distance) ∧
      brink.contentEdge besideBrink .left = 1073741800 ∧
      brink.contentEdge besideBrink .left ≤ brink.contentEdge besideBrink .right := by
  have hadmits : brink.Admits besideBrink := ⟨by decide, by decide, by decide, by decide⟩
  have hpixels : brink.PixelsInRange besideBrink := by
    intro f hf shape hshape
    rcases List.mem_cons.1 hf with rfl | hf
    · cases hshape
      intro r hr
      cases List.mem_singleton.1 (Array.mem_toList_iff.2 hr)
      decide
    · rcases List.mem_cons.1 hf with rfl | hf
      · cases hshape
        trivial
      · cases List.mem_singleton.1 hf
        cases hshape
        trivial
  obtain ⟨hanswer, hedges, hcontent, -⟩ :=
    brink_reachable.flowArea_never_faults hadmits rfl hpixels
  obtain ⟨-, hcorners⟩ :=
    hedges _ (List.mem_cons_of_mem _ (List.mem_cons_of_mem _ List.mem_cons_self)) (by decide)
  exact ⟨brink_reachable, hpixels, hanswer, hcorners _ rfl brinkCorners ⟨0, 100⟩ rfl, rfl, hcontent⟩

end FloatContext

end FloatLayout
