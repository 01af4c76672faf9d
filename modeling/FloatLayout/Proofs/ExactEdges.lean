import FloatLayout.Proofs.LineClearance
import FloatLayout.Proofs.PolygonBands
import Mathlib.Data.List.MinMax
import Mathlib.Data.Rat.Floor
import Mathlib.Data.Real.Basic
import Mathlib.Tactic.Linarith

/-!
# Exact edges of polygons

The parts of the edges of a polygon inside a band reach, on either side, exactly as far as one of
the positions at which an edge comes into the band or goes out of it. Each of these is rounded by
itself, up or down, whichever is nearer to the upper end of its edge. What a polygon shows is the
exact reach of these parts, rounded up or down. So it is less than one unit off, and exact where the
reach is a whole number, as at every vertex.

## Main definitions

- `Segment.lineAt`: where an edge meets a line at any height.
- `Polygon.positionsIn`: the positions of all points of edges inside a band.
- `LineSide.IsOutermost`: the extreme of a set of positions on a side.
- `Polygon.cutEdge_rounds`: the edge in a band is the exact one, rounded.
- `Polygon.edge_near_exact`: the edge in a band is less than one unit off.
-/

namespace FloatLayout

/-- Rounding up or down changes a number by less than one. -/
theorem abs_sub_lt_one_of_rounds {n : Int} {q : ℚ} (hfloor : ⌊q⌋ ≤ n) (hceil : n ≤ ⌈q⌉) :
    |(n : ℚ) - q| < 1 := by
  have hlow : q < n + 1 := by exact_mod_cast Int.floor_lt.1 (Int.lt_add_one_of_le hfloor)
  have hhigh : (n : ℚ) - 1 < q := by exact_mod_cast Int.lt_ceil.1 (Int.sub_one_lt_of_le hceil)
  rw [abs_lt]
  constructor <;> linarith

namespace LineSide

/-- A number lies at another one or farther out. -/
def Beyond {α : Type} [LE α] (side : LineSide) (a b : α) : Prop :=
  match side with
  | .left => a ≤ b
  | .right => b ≤ a

/-- The farthest out position of a set. -/
def IsOutermost (side : LineSide) (positions : Set ℝ) (x : ℝ) : Prop :=
  match side with
  | .left => IsLeast positions x
  | .right => IsGreatest positions x

theorem isOutermost_iff {side : LineSide} {positions : Set ℝ} {x : ℝ} :
    side.IsOutermost positions x ↔ x ∈ positions ∧ ∀ y ∈ positions, side.Beyond x y := by
  cases side <;> rfl

/-- Of some rational numbers, one is the farthest out. -/
theorem exists_beyond {α : Type} (side : LineSide) (position : α → ℚ) {l : List α} (hl : l ≠ []) :
    ∃ a ∈ l, ∀ b ∈ l, side.Beyond (position a) (position b) := by
  cases side with
  | left =>
    have hsome : l.argmin position ≠ none := mt List.argmin_eq_none.1 hl
    obtain ⟨a, ha⟩ := Option.ne_none_iff_exists'.1 hsome
    exact ⟨a, List.argmin_mem ha, fun b hb => List.le_of_mem_argmin hb ha⟩
  | right =>
    have hsome : l.argmax position ≠ none := mt List.argmax_eq_none.1 hl
    obtain ⟨a, ha⟩ := Option.ne_none_iff_exists'.1 hsome
    exact ⟨a, List.argmax_mem ha, fun b hb => List.le_of_mem_argmax hb ha⟩

end LineSide

namespace Segment

variable {s : Segment} {y : Length} {h h₁ h₂ : ℝ}

/-- Where the line along an edge that is not horizontal meets the line at a height. -/
noncomputable def lineAt (s : Segment) (h : ℝ) : ℝ :=
  s.upper.x.units + (h - s.upper.y.units) *
    ((s.lower.x.units - s.upper.x.units) / (s.lower.y.units - s.upper.y.units))

theorem lineAt_units (s : Segment) (y : Length) : s.lineAt y.units = (s.intercept y : ℝ) := by
  rw [lineAt, intercept]
  push_cast
  ring

/-- An edge that is followed down moves to one side only. -/
theorem lineAt_between (h₁le : h₁ ≤ h) (hle₂ : h ≤ h₂) :
    min (s.lineAt h₁) (s.lineAt h₂) ≤ s.lineAt h ∧
      s.lineAt h ≤ max (s.lineAt h₁) (s.lineAt h₂) := by
  simp only [lineAt]
  generalize ((s.lower.x.units : ℝ) - s.upper.x.units) / (s.lower.y.units - s.upper.y.units) = slope
  rcases le_total 0 slope with hslope | hslope
  · have hfirst : (h₁ - s.upper.y.units) * slope ≤ (h - s.upper.y.units) * slope :=
      mul_le_mul_of_nonneg_right (by linarith) hslope
    have hlast : (h - s.upper.y.units) * slope ≤ (h₂ - s.upper.y.units) * slope :=
      mul_le_mul_of_nonneg_right (by linarith) hslope
    exact ⟨min_le_of_left_le (by linarith), le_max_of_le_right (by linarith)⟩
  · have hfirst : (h - s.upper.y.units) * slope ≤ (h₁ - s.upper.y.units) * slope :=
      mul_le_mul_of_nonpos_right (by linarith) hslope
    have hlast : (h₂ - s.upper.y.units) * slope ≤ (h - s.upper.y.units) * slope :=
      mul_le_mul_of_nonpos_right (by linarith) hslope
    exact ⟨min_le_of_right_le (by linarith), le_max_of_le_left (by linarith)⟩

theorem beyond_lineAt {side : LineSide} {x : ℝ} (h₁le : h₁ ≤ h) (hle₂ : h ≤ h₂)
    (hout₁ : side.Beyond x (s.lineAt h₁)) (hout₂ : side.Beyond x (s.lineAt h₂)) :
    side.Beyond x (s.lineAt h) := by
  obtain ⟨hmin, hmax⟩ := lineAt_between (s := s) h₁le hle₂
  cases side with
  | left => exact le_trans (le_min hout₁ hout₂) hmin
  | right => exact le_trans hmax (max_le hout₁ hout₂)

/-- The position of an edge on a line is where it meets the line, rounded up or down. -/
theorem xAt_rounds (hheight : s.upper.y < s.lower.y) (hupper : s.upper.y ≤ y)
    (hlower : y ≤ s.lower.y) :
    ⌊s.intercept y⌋ ≤ (s.xAt y).units ∧ (s.xAt y).units ≤ ⌈s.intercept y⌉ := by
  obtain ⟨hlow, hhigh⟩ := xAt_near_of_le hheight hupper hlower
  constructor
  · exact Int.le_of_lt_add_one (Int.floor_lt.2 (by exact_mod_cast hhigh))
  · exact Int.le_of_sub_one_lt (Int.lt_ceil.2 (by exact_mod_cast hlow))

end Segment

namespace Polygon

variable {polygon : Polygon} {side : LineSide} {band : Band} {c : Segment × Length} {exact : ℚ}

/-- The positions of the points inside a band of all edges that run through it. -/
def positionsIn (polygon : Polygon) (band : Band) : Set ℝ :=
  {x | ∃ s ∈ polygon.edges, s.Enters band ∧ ∃ h : ℝ,
    ((s.upper.y.units : ℝ) ≤ h ∧ h ≤ s.lower.y.units) ∧
      ((band.start.units : ℝ) ≤ h ∧ h ≤ band.stop.units) ∧ x = s.lineAt h}

/-- The position of an edge where it comes into a band or goes out of it, not rounded. -/
def cutIntercept (c : Segment × Length) : ℚ := c.1.intercept c.2

theorem cutIntercept_mem (hband : band.start ≤ band.stop) (hc : c ∈ polygon.cuts band) :
    (cutIntercept c : ℝ) ∈ polygon.positionsIn band := by
  obtain ⟨-, ⟨hupper, hlower⟩, hstart, hstop⟩ := between_of_mem_cuts hband hc
  obtain ⟨hs, henters⟩ := (mem_cuts_iff.1 hc).1
  refine ⟨c.1, hs, henters, c.2.units, ⟨?_, ?_⟩, ⟨?_, ?_⟩, (c.1.lineAt_units c.2).symm⟩ <;>
    exact_mod_cast ‹_›

/-- What lies farther out than all cuts lies farther out than all points of the edges. -/
theorem beyond_of_mem_positionsIn {x : ℝ}
    (hout : ∀ c ∈ polygon.cuts band, side.Beyond x (cutIntercept c : ℝ)) :
    ∀ y ∈ polygon.positionsIn band, side.Beyond x y := by
  rintro _ ⟨s, hs, henters, h, ⟨hupper, hlower⟩, ⟨hstart, hstop⟩, rfl⟩
  have hentry := hout (s, s.entry band) (mem_cuts_iff.2 ⟨⟨hs, henters⟩, .inl rfl⟩)
  have hexit := hout (s, s.exit band) (mem_cuts_iff.2 ⟨⟨hs, henters⟩, .inr rfl⟩)
  rw [cutIntercept, ← Segment.lineAt_units] at hentry hexit
  refine Segment.beyond_lineAt ?_ ?_ hentry hexit
  · rw [Segment.entry, Length.units_max, Int.cast_max]
    exact max_le hstart hupper
  · rw [Segment.exit, Length.units_min, Int.cast_min]
    exact le_min hstop hlower

/-- Of the points inside a band, one at a cut is the outermost. -/
theorem exists_isOutermost_cut (hband : band.start ≤ band.stop) (side : LineSide)
    (hcuts : polygon.cuts band ≠ []) :
    ∃ c ∈ polygon.cuts band, (∀ c' ∈ polygon.cuts band,
      side.Beyond (cutIntercept c) (cutIntercept c')) ∧
        side.IsOutermost (polygon.positionsIn band) (cutIntercept c) := by
  obtain ⟨c, hc, hout⟩ := side.exists_beyond cutIntercept hcuts
  refine ⟨c, hc, hout, LineSide.isOutermost_iff.2 ⟨cutIntercept_mem hband hc,
    beyond_of_mem_positionsIn fun c' hc' => ?_⟩⟩
  have hout' := hout c' hc'
  cases side with
  | left => exact Rat.cast_le.2 hout'
  | right => exact Rat.cast_le.2 hout'

/-- The edge of a polygon in a band is the exact one, rounded up or down. -/
theorem cutEdge_rounds (hband : band.start ≤ band.stop) (hc : c ∈ polygon.cuts band)
    (hout : ∀ c' ∈ polygon.cuts band, side.Beyond (cutIntercept c) (cutIntercept c')) :
    ⌊cutIntercept c⌋ ≤ (polygon.cutEdge side band).units ∧
      (polygon.cutEdge side band).units ≤ ⌈cutIntercept c⌉ := by
  have hrounds : ∀ c' ∈ polygon.cuts band, ⌊cutIntercept c'⌋ ≤ (c'.1.xAt c'.2).units ∧
      (c'.1.xAt c'.2).units ≤ ⌈cutIntercept c'⌉ := by
    intro c' hc'
    obtain ⟨hheight, ⟨hupper, hlower⟩, -⟩ := between_of_mem_cuts hband hc'
    exact Segment.xAt_rounds hheight hupper hlower
  -- One bound comes from the outermost exact position, the other from the outermost rounded one.
  obtain ⟨c', hc', hedge⟩ := exists_cutEdge_eq side (List.ne_nil_of_mem hc)
  have hbound := outside_cutEdge_iff.1 (LineSide.Outside.refl side _) c hc
  have hexact := hout c' hc'
  obtain ⟨hfloor, hceil⟩ := hrounds c hc
  obtain ⟨hfloor', hceil'⟩ := hrounds c' hc'
  cases side with
  | left =>
    exact ⟨(Int.floor_le_floor hexact).trans (hedge ▸ hfloor'), le_trans hbound hceil⟩
  | right =>
    exact ⟨hfloor.trans hbound, le_trans (hedge ▸ hceil') (Int.ceil_le_ceil hexact)⟩

/-- The edge of a polygon in a band is less than one unit away from the outermost point of all edges
    inside the band. It lies there exactly if this is the position of a vertex inside the band. -/
theorem edge_near_exact (harea : polygon.empty = false) (hband : band.start ≤ band.stop)
    (side : LineSide) :
    ∃ x, polygon.edge side band = .ok x ∧
      ((∀ s ∈ polygon.edges, ¬s.Enters band) → x = side.innermost) ∧
      ((∃ s ∈ polygon.edges, s.Enters band) →
        ∃ exact : ℚ, side.IsOutermost (polygon.positionsIn band) exact ∧
          |(x.units : ℚ) - exact| < 1 ∧
          ∀ v ∈ polygon.vertices, band.start ≤ v.y → v.y ≤ band.stop →
            exact = (v.x.units : ℚ) → x = v.x) := by
  refine ⟨_, edge_eq harea hband, fun hnone => ?_, fun hsome => ?_⟩
  · exact cutEdge_of_cuts_eq_nil (cuts_eq_nil_iff.2 hnone) side
  · have hcuts : polygon.cuts band ≠ [] := by
      obtain ⟨s, hs, henters⟩ := hsome
      exact fun hnil => cuts_eq_nil_iff.1 hnil s hs henters
    obtain ⟨c, hc, hout, houtermost⟩ := exists_isOutermost_cut hband side hcuts
    obtain ⟨hfloor, hceil⟩ := cutEdge_rounds hband hc hout
    refine ⟨cutIntercept c, houtermost, abs_sub_lt_one_of_rounds hfloor hceil,
      fun v _ _ _ hv => ?_⟩
    -- A whole number is rounded to itself.
    rw [hv, Int.floor_intCast] at hfloor
    rw [hv, Int.ceil_intCast] at hceil
    exact Length.ext (le_antisymm hceil hfloor)

/-- A triangle with a steep side and a flat one. -/
def sail : Polygon := ofVertices [⟨0, 0⟩, ⟨100, 7⟩, ⟨-50, 10⟩]

/-- Above the tip of `sail`, its flat side ends between two whole numbers. A band with the tip
    inside shows exactly the tip. -/
theorem sail_edge_near_exact :
    sail.empty = false ∧
      (sail.edge .right ⟨2, 5⟩ = .ok 71 ∧
        ∃ exact : ℚ, IsGreatest (sail.positionsIn ⟨2, 5⟩) exact ∧ |(71 : ℚ) - exact| < 1) ∧
      sail.edge .right ⟨2, 8⟩ = .ok 100 ∧
        ∃ exact : ℚ, IsGreatest (sail.positionsIn ⟨2, 8⟩) exact ∧ |(100 : ℚ) - exact| < 1 := by
  have harea : sail.empty = false := by decide
  have hnear : ∀ (band : Band) (x : Length), band.start ≤ band.stop →
      sail.edge .right band = .ok x → (∃ s ∈ sail.edges, s.Enters band) →
        ∃ exact : ℚ, IsGreatest (sail.positionsIn band) exact ∧ |(x.units : ℚ) - exact| < 1 := by
    intro band x hband hx hsome
    obtain ⟨y, hy, -, hnear⟩ := edge_near_exact harea hband .right
    cases hx.symm.trans hy
    obtain ⟨exact, hgreatest, hdistance, -⟩ := hnear hsome
    exact ⟨exact, hgreatest, hdistance⟩
  have habove : sail.edge .right ⟨2, 5⟩ = .ok 71 := by decide
  have hacross : sail.edge .right ⟨2, 8⟩ = .ok 100 := by decide
  exact ⟨harea, ⟨habove, hnear _ 71 (by decide) habove (by decide)⟩, hacross,
    hnear _ 100 (by decide) hacross (by decide)⟩

end Polygon

end FloatLayout
