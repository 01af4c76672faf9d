import FloatLayout.Proofs.PixelEdge
import FloatLayout.Proofs.PolygonEdge
import FloatLayout.Proofs.RangeWidth

/-!
# Shapes beyond their margin boxes

A shape is clipped to the margin box of its float, but its edge in a band is that of the whole band,
with the parts above and below the margin box. So these parts may move an edge as well. And a shape
without any part beside the margin box counts in a range that spans the gap between the two.

## Main definitions

- `Shape.Splits`: a shape that shows the same in a band and in its parts.
- `PlacedFloat.clipBand`: the part of a band beside the margin box.
- `PlacedFloat.EdgeParts`: the edge in a band, by its parts beside and beyond the margin box.
- `FloatContext.counts_of_blockEnd_le_blockStart_iff`: where a float beyond its margin box counts.
-/

namespace FloatLayout

variable {side : LineSide} {band : Band} {a b box start mid stop : Length}

theorem LineSide.clip_outer (side : LineSide) (box a b : Length) :
    PlacedFloat.clip side box (side.outer a b) =
      side.outer (PlacedFloat.clip side box a) (PlacedFloat.clip side box b) := by
  refine eq_of_outside_iff side fun p => ?_
  simp only [outside_clip_iff, outside_outer_iff, or_and_left]

/-- A shape that shows the same in a band as in its two parts, wherever the band is split: a polygon
    that encloses area, or pixel runs that stand in order. -/
def Shape.Splits : Shape → Prop
  | .polygon p => p.empty = false
  | .pixels a => a.Stacked
  | .roundedBox _ | .ellipse _ => False

namespace Shape.Splits

variable {shape : Shape}

theorem edge_succeeds (h : shape.Splits) (side : LineSide) (hband : band.start ≤ band.stop) :
    Succeeds (shape.edge side band) := by
  cases shape with
  | roundedBox b => exact absurd h id
  | ellipse e => exact absurd h id
  | polygon p => exact Polygon.edge_succeeds h hband
  | pixels a => exact PixelArea.edge_succeeds (PixelArea.Stacked.bounded h) hband

theorem edge_eq_outer {x x₁ x₂ : Length} (h : shape.Splits)
    (hx : shape.edge side ⟨start, stop⟩ = .ok x) (hx₁ : shape.edge side ⟨start, mid⟩ = .ok x₁)
    (hx₂ : shape.edge side ⟨mid, stop⟩ = .ok x₂) (hmid : start ≤ mid) (hmid' : mid ≤ stop) :
    x = side.outer x₁ x₂ := by
  cases shape with
  | roundedBox b => exact absurd h id
  | ellipse e => exact absurd h id
  | polygon p => exact Polygon.edge_split hx hx₁ hx₂ hmid hmid'
  | pixels a => exact PixelArea.Stacked.edge_split h hx hx₁ hx₂ hmid hmid'

end Shape.Splits

namespace PlacedFloat

variable {f : PlacedFloat} {shape : Shape}

theorem edge_split (hshape : f.areaShape .shapeOutside = some shape) (hsplits : shape.Splits)
    (side : LineSide) (hmid : start ≤ mid) (hmid' : mid ≤ stop) :
    ∃ x₁ x₂, f.edge .shapeOutside side ⟨start, mid⟩ = .ok x₁ ∧
      f.edge .shapeOutside side ⟨mid, stop⟩ = .ok x₂ ∧
      f.edge .shapeOutside side ⟨start, stop⟩ = .ok (side.outer x₁ x₂) := by
  obtain ⟨x, hx⟩ : Succeeds (shape.edge side ⟨start, stop⟩) :=
    hsplits.edge_succeeds side (le_trans hmid hmid')
  obtain ⟨x₁, hx₁⟩ : Succeeds (shape.edge side ⟨start, mid⟩) := hsplits.edge_succeeds side hmid
  obtain ⟨x₂, hx₂⟩ : Succeeds (shape.edge side ⟨mid, stop⟩) := hsplits.edge_succeeds side hmid'
  have hsplit := hsplits.edge_eq_outer hx hx₁ hx₂ hmid hmid'
  refine ⟨clip side (f.rect.lineEdge side) x₁, clip side (f.rect.lineEdge side) x₂, ?_, ?_, ?_⟩
  · rw [edge_of_shape hshape, hx₁]
    rfl
  · rw [edge_of_shape hshape, hx₂]
    rfl
  · rw [edge_of_shape hshape, hx, hsplit, ← LineSide.clip_outer]
    rfl

/-- The part of a band beside the margin box. -/
def clipBand (f : PlacedFloat) (band : Band) : Band :=
  ⟨max band.start f.rect.y, min band.stop f.rect.bottom⟩

/-- The edge of a float in a band, in which it shows `inner` beside its margin box, `above` above it
    and `below` below it. -/
structure EdgeParts (f : PlacedFloat) (side : LineSide) (band : Band)
    (above inner below : Length) : Prop where
  edge_above : f.edge .shapeOutside side ⟨band.start, (f.clipBand band).start⟩ = .ok above
  edge_inner : f.edge .shapeOutside side (f.clipBand band) = .ok inner
  edge_below : f.edge .shapeOutside side ⟨(f.clipBand band).stop, band.stop⟩ = .ok below
  edge_whole : f.edge .shapeOutside side band =
    .ok (side.outer above (side.outer inner below))

theorem exists_edgeParts (hshape : f.shape = some shape) (hsplits : shape.Splits)
    (side : LineSide) (hmeets : (f.clipBand band).start ≤ (f.clipBand band).stop) :
    ∃ above inner below, f.EdgeParts side band above inner below := by
  have hstart : band.start ≤ (f.clipBand band).start := by
    simp only [clipBand, Length.le_def, Length.units_max]
    omega
  have hstop : (f.clipBand band).stop ≤ band.stop := by
    simp only [clipBand, Length.le_def, Length.units_min]
    omega
  obtain ⟨above, rest, habove, hrest, hwhole⟩ :=
    edge_split hshape hsplits side hstart (le_trans hmeets hstop)
  obtain ⟨inner, below, hinner, hbelow, hrest'⟩ := edge_split hshape hsplits side hmeets hstop
  cases hrest.symm.trans hrest'
  exact ⟨above, inner, below, habove, hinner, hbelow, hwhole⟩

/-- A float has the edge that it has beside its margin box exactly if no part beyond reaches farther
    out. -/
theorem EdgeParts.eq_inner_iff {above inner below : Length}
    (h : f.EdgeParts side band above inner below) :
    f.edge .shapeOutside side band = f.edge .shapeOutside side (f.clipBand band) ↔
      side.Outside inner above ∧ side.Outside inner below := by
  rw [h.edge_whole, h.edge_inner, Except.ok.injEq]
  constructor
  · intro heq
    have hinner : side.Outside inner (side.outer above (side.outer inner below)) := by
      rw [heq]
      exact .refl side inner
    obtain ⟨habove, hrest⟩ := LineSide.outside_outer_iff.1 hinner
    exact ⟨habove, (LineSide.outside_outer_iff.1 hrest).2⟩
  · rintro ⟨habove, hbelow⟩
    have hout : side.Outside (side.outer above (side.outer inner below)) inner :=
      (LineSide.outside_outer_iff.1 (LineSide.outside_outer_iff.1 (.refl side _)).2).1
    exact hout.antisymm (LineSide.outside_outer_iff.2
      ⟨habove, LineSide.outside_outer_iff.2 ⟨.refl side inner, hbelow⟩⟩)

end PlacedFloat

namespace FloatContext

variable {c : FloatContext} {q : FlowQuery} {f : PlacedFloat}

/-- A float without any part beside its margin box counts in the ranges of fixed height that span
    the gap between the end of the margin box and the start of the shape, and for no band from a
    point. -/
theorem counts_of_blockEnd_le_blockStart_iff (hfull : f.isEmpty q.area = false)
    (hgap : f.blockEnd q.area ≤ f.blockStart q.area) :
    f.Counts q.area (c.linesOf q) ↔ q.kind = .withinHeight ∧ c.startOf q < f.blockEnd q.area ∧
      f.blockStart q.area < c.stopOf q := by
  simp only [PlacedFloat.Counts, hfull, true_and, PlacedFloat.Crosses, linesOf, BandKind.lines]
  rw [Length.le_def] at hgap
  cases q.kind with
  | fromPoint =>
    simp only [reduceCtorEq, false_and, iff_false, Length.lt_def, Length.ext_iff]
    omega
  | withinHeight =>
    simp only [true_and, Length.lt_def, Length.ext_iff]
    omega

/-- A left float whose shape grows down past its margin box. -/
def overhangingHistory : List Operation :=
  let area : ShapeOutside :=
    .shape (.polygon [⟨0, 0⟩, ⟨10, 100⟩, ⟨50, 200⟩, ⟨0, 200⟩]) .marginBox
  [.add { FloatBox.plain 1 .left with shapeOutside := area }
    ⟨.horizontalTb, 0, 0, 50, 100⟩ .horizontalTb ⟨200, 1000⟩]

/-- The float of `overhangingHistory`. -/
def overhang : PlacedFloat :=
  ⟨1, .left, ⟨0, 0, 50, 100⟩, 100, .least,
    some (.polygon ⟨[⟨0, 0⟩, ⟨10, 100⟩, ⟨50, 200⟩, ⟨0, 200⟩], false, 0, 200⟩)⟩

/-- The context after `overhangingHistory`. -/
def overhanging : FloatContext := { new .horizontalTb with floats := [overhang] }

theorem overhanging_reachable : overhanging.Reachable := by
  have h : (new .horizontalTb).run overhangingHistory = .ok overhanging := rfl
  exact (Reachable.new .horizontalTb).run h

theorem overhanging_runsBounded (q : FlowQuery) : overhanging.RunsBounded q :=
  runsBounded_of_floats (by simp [overhanging, overhang, Shape.Bounded]) q

/-- A question for the space beside the whole shape of the float of `overhanging`. -/
def besideOverhanging : FlowQuery where
  mode := .horizontalTb
  blockStart := 0
  blockSize := 200
  kind := .withinHeight
  area := .shapeOutside
  content := ⟨.horizontalTb, 0, 0, 200, 0⟩
  checkpoint := none
  container := ⟨200, 1000⟩

/-- The edge of a float in a band is the outermost of its edges beside its margin box, above it and
    below it, so it is the edge beside the margin box exactly if the parts beyond reach no farther
    out. A float without any part beside its margin box counts exactly in the ranges of fixed
    height that span the gap between the two. An answer gives the edges left by all floats that
    count. -/
theorem Reachable.flowArea_beyond_margin (h : c.Reachable) (hadmits : c.Admits q)
    (hcontent : q.content.mode = q.mode) (hblock : c.BlockExact q) (hinline : c.InlineExact q)
    (hruns : c.RunsBounded q) :
    (∀ f ∈ c.visible q, ∀ shape ∈ f.shape, shape.Splits → ∀ side band,
        (f.clipBand band).start < (f.clipBand band).stop →
        ∃ above inner below, f.EdgeParts side band above inner below ∧
          (f.edge .shapeOutside side band = f.edge .shapeOutside side (f.clipBand band) ↔
            side.Outside inner above ∧ side.Outside inner below)) ∧
      (∀ f ∈ c.visible q, f.isEmpty q.area = false → f.blockEnd q.area ≤ f.blockStart q.area →
        (f.Counts q.area (c.linesOf q) ↔ q.kind = .withinHeight ∧
          c.startOf q < f.blockEnd q.area ∧ f.blockStart q.area < c.stopOf q)) ∧
      ∃ a, c.flowArea q = .ok a ∧ c.Describes q a := by
  refine ⟨?_, ?_, h.exists_describes hadmits hcontent hblock hinline hruns⟩
  · intro f _ shape hshape hsplits side band hmeets
    obtain ⟨above, inner, below, hparts⟩ :=
      PlacedFloat.exists_edgeParts hshape hsplits side (le_of_lt hmeets)
    exact ⟨above, inner, below, hparts, hparts.eq_inner_iff⟩
  · exact fun f _ hfull hgap => counts_of_blockEnd_le_blockStart_iff hfull hgap

theorem overhanging_flowArea_beyond_margin :
    overhanging.Reachable ∧
      (∃ above inner below, overhang.EdgeParts .right ⟨0, 200⟩ above inner below) ∧
      ∃ a, overhanging.flowArea besideOverhanging = .ok a ∧
        overhanging.Describes besideOverhanging a := by
  have hadmits : overhanging.Admits besideOverhanging :=
    ⟨by decide, by decide, by decide, by decide⟩
  obtain ⟨hparts, -, hanswer⟩ := overhanging_reachable.flowArea_beyond_margin hadmits rfl
    ⟨rfl, fun _ => rfl⟩ ⟨fun side => by cases side <;> rfl, rfl, fun _ => rfl, nofun⟩
    (overhanging_runsBounded _)
  obtain ⟨above, inner, below, h, -⟩ :=
    hparts overhang (List.mem_singleton.2 rfl) _ rfl rfl .right ⟨0, 200⟩ (by decide)
  exact ⟨overhanging_reachable, ⟨above, inner, below, h⟩, hanswer⟩

/-- The edge of the float of `overhanging` in a band past its margin box is not the one beside the
    margin box, and the shape of the float of `outlying` moves an edge, although no part of it lies
    beside the margin box. -/
theorem overhanging_edge_moved :
    overhanging.Reachable ∧ outlying.Reachable ∧
      (¬∀ f ∈ overhanging.floats, ∀ side band,
        (f.clipBand band).start < (f.clipBand band).stop →
        f.edge .shapeOutside side band = f.edge .shapeOutside side (f.clipBand band)) ∧
      (∀ f ∈ outlying.floats, f.blockEnd .shapeOutside ≤ f.blockStart .shapeOutside) ∧
      ¬∀ a, outlying.flowArea (besideOutlying.within 200) = .ok a → a.hasFloats = false := by
  refine ⟨overhanging_reachable, outlying_reachable, fun hall => ?_, by decide, fun hall => ?_⟩
  · have hedge := hall overhang (List.mem_singleton.2 rfl) .right ⟨0, 200⟩ (by decide)
    have hwhole : overhang.edge .shapeOutside .right ⟨0, 200⟩ = .ok 50 := rfl
    have hinner : overhang.edge .shapeOutside .right (overhang.clipBand ⟨0, 200⟩) = .ok 10 := rfl
    rw [hwhole, hinner] at hedge
    exact absurd (Except.ok.inj hedge) (by decide)
  · have hanswer : outlying.flowArea (besideOutlying.within 200) =
        .ok ⟨⟨.horizontalTb, 50, 50, 150, 200⟩, true, false⟩ := rfl
    exact absurd (hall _ hanswer) (by decide)

end FloatContext

end FloatLayout
