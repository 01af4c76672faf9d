import FloatLayout.Proofs.Edges
import FloatLayout.Proofs.RoundingOrder

/-!
# Extents of arcs

The extent of an arc is computed with rounded numbers. At a height between the flat side of a corner
and the end of its arc, it still lies between zero and the radius along the line. Corners ask for no
other height, so the distance by which an arc draws an edge in is exact, and no number on the way to
it leaves the range of lengths.

## Main definitions

- `CornerRadius.extent`: the extent of an arc as a whole number of any size.
- `CornerRadius.extent_between`: the bounds of the extent.
- `CornerRadius.DrawsIn`, `SideCorners.Draws`: a distance by which an arc draws an edge in.
- `SideCorners.indent_draws`: the indent of a band is such a distance.
-/

namespace FloatLayout

namespace CornerRadius

variable {radius : CornerRadius Length} {y : Length}

/-- The square of a length, in double precision. -/
def square (a : Length) : Rat := Binary.round Binary.double (a.units * a.units : Int)

/-- What is left of one at a height, in double precision. Its root is the extent of the arc of a
    circle with radius one. -/
def rest (radius : CornerRadius Length) (y : Length) : Rat :=
  Binary.round Binary.double (1 - Binary.round Binary.double (square y / square radius.y))

/-- The extent of an arc at a height, whether it is in the range of lengths or not. -/
def extent (radius : CornerRadius Length) (y : Length) : Int :=
  Binary.truncate (Binary.round Binary.double
    (radius.x.units * Binary.sqrt Binary.double (radius.rest y)))

theorem reach_eq (h : 0 < radius.y) : radius.reach y = .ok (.clamp (radius.extent y)) := by
  unfold reach
  rw [require_of h]
  rfl

theorem square_le_square (hlow : 0 ≤ y) (hhigh : y ≤ radius.y) : square y ≤ square radius.y := by
  refine Binary.round_mono (by decide) (Rat.intCast_le_intCast.2 ?_)
  exact Int.mul_le_mul hhigh hhigh hlow (Int.le_trans hlow hhigh)

theorem square_nonneg (a : Length) : 0 ≤ square a := by
  refine Binary.le_round_of_le (by decide) (.zero _) (Rat.intCast_nonneg.2 ?_)
  rw [← Int.natAbs_mul_self]
  exact Int.natCast_nonneg _

theorem square_pos (h : 0 < y) : 0 < square y := by
  have hone : (1 : Rat) ≤ square y := by
    refine Binary.le_round_of_le (by decide) (.intCast (n := 1) (by decide)) ?_
    have hunits : 1 ≤ y.units := h
    exact Rat.intCast_le_intCast.2 (Int.mul_le_mul hunits hunits (by decide) (by omega))
  grind

theorem rest_mem_unit (hy : 0 < radius.y) (hlow : 0 ≤ y) (hhigh : y ≤ radius.y) :
    0 ≤ radius.rest y ∧ radius.rest y ≤ 1 := by
  have hquotient : 0 ≤ square y / square radius.y :=
    div_nonneg (square_nonneg y) (square_nonneg radius.y)
  have hquotient' : square y / square radius.y ≤ 1 :=
    (div_le_one (square_pos hy)).2 (square_le_square hlow hhigh)
  obtain ⟨hround, hround'⟩ :=
    Binary.round_mem_unit (p := Binary.double) (by decide) hquotient hquotient'
  exact Binary.round_mem_unit (by decide) (by grind) (by grind)

theorem extent_between (hy : 0 < radius.y) (hlow : 0 ≤ y) (hhigh : y ≤ radius.y) :
    min 0 radius.x.units ≤ radius.extent y ∧ radius.extent y ≤ max 0 radius.x.units := by
  obtain ⟨-, hrest⟩ := rest_mem_unit hy hlow hhigh
  obtain ⟨hpart, hpart'⟩ := Binary.mul_between (n := radius.x.units)
    (Binary.sqrt_nonneg Binary.double (radius.rest y)) (Binary.sqrt_le_one (by decide) hrest)
  have hfits : radius.x.units.natAbs < 2 ^ Binary.double := by
    have hdouble : 2 ^ Binary.double = 9007199254740992 := by decide
    have := radius.x.lower
    have := radius.x.upper
    omega
  obtain ⟨hround, hround'⟩ := Binary.round_between (by decide) hfits hpart hpart'
  exact Binary.truncate_between hround hround'

/-- An arc draws an edge in by a distance, at a height between the flat side and the end of the
    arc. -/
structure DrawsIn (radius : CornerRadius Length) (height distance : Length) : Prop where
  upright : 0 < radius.y
  nonneg : 0 ≤ height
  le_radius : height ≤ radius.y
  extent : min 0 radius.x.units ≤ radius.extent height ∧
    radius.extent height ≤ max 0 radius.x.units
  distance : distance.units = radius.x.units - radius.extent height

/-- At a distance from its end, no farther than the radius, an arc draws an edge in. -/
theorem reach_drawsIn {d : Length} (hy : 0 < radius.y) (hlow : 0 ≤ d) (hhigh : d ≤ radius.y) :
    ∃ x, radius.reach (radius.y - d) = .ok x ∧ radius.DrawsIn (radius.y - d) (radius.x - x) := by
  have hheight : 0 ≤ radius.y - d ∧ radius.y - d ≤ radius.y := by
    have := radius.y.upper
    simp only [Length.le_def, Length.units_sub, Length.units_zero] at *
    omega
  have hextent := extent_between hy hheight.1 hheight.2
  refine ⟨_, reach_eq hy, hy, hheight.1, hheight.2, hextent, ?_⟩
  have := radius.x.lower
  have := radius.x.upper
  rw [Length.units_sub, Length.units_clamp]
  omega

end CornerRadius

namespace SideCorners

variable {corners : SideCorners} {box band : Band}

/-- An arc of one of two corners draws their side in by a distance, or none does. -/
def Draws (corners : SideCorners) (distance : Length) : Prop :=
  distance = 0 ∨ ∃ height,
    corners.start.DrawsIn height distance ∨ corners.stop.DrawsIn height distance

theorem indent_eq (hbox : box.start ≤ box.stop) (hband : band.start ≤ band.stop) :
    corners.indent box band =
      if 0 < corners.start.y ∧ box.start ≤ band.stop ∧ band.stop ≤ box.start + corners.start.y then
        corners.start.reach (corners.start.y - (band.stop - box.start)) >>= fun x =>
          .ok (corners.start.x - x)
      else if 0 < corners.stop.y ∧ box.stop - corners.stop.y ≤ band.start ∧
          band.start ≤ box.stop then
        corners.stop.reach (corners.stop.y - (box.stop - band.start)) >>= fun x =>
          .ok (corners.stop.x - x)
      else .ok 0 := by
  unfold indent
  rw [require_of hbox, require_of hband]
  rfl

/-- In a band, a side is drawn in by an arc at a height between its flat side and its end, or it is
    not drawn in. -/
theorem indent_draws (hbox : box.start ≤ box.stop) (hband : band.start ≤ band.stop) :
    ∃ distance, corners.indent box band = .ok distance ∧ corners.Draws distance := by
  rw [indent_eq hbox hband]
  split
  · next h =>
    obtain ⟨hy, habove, hbelow⟩ := h
    have hdistance : 0 ≤ band.stop - box.start ∧ band.stop - box.start ≤ corners.start.y := by
      have := box.start.lower
      have := corners.start.y.upper
      simp only [Length.le_def, Length.lt_def, Length.units_add, Length.units_sub,
        Length.units_zero] at *
      omega
    obtain ⟨x, hx, hdraws⟩ := CornerRadius.reach_drawsIn hy hdistance.1 hdistance.2
    exact ⟨_, by rw [hx]; rfl, .inr ⟨_, .inl hdraws⟩⟩
  · split
    · next h =>
      obtain ⟨hy, habove, hbelow⟩ := h
      have hdistance : 0 ≤ box.stop - band.start ∧ box.stop - band.start ≤ corners.stop.y := by
        have := box.stop.upper
        have := corners.stop.y.upper
        simp only [Length.le_def, Length.lt_def, Length.units_sub, Length.units_zero] at *
        omega
      obtain ⟨x, hx, hdraws⟩ := CornerRadius.reach_drawsIn hy hdistance.1 hdistance.2
      exact ⟨_, by rw [hx]; rfl, .inr ⟨_, .inr hdraws⟩⟩
    · exact ⟨0, rfl, .inl rfl⟩

end SideCorners

end FloatLayout
