import FloatLayout.Proofs.ExactEdges

/-!
# Crossings of edges

Where an edge meets a line is interpolated between the ends of the edge, with a product and a
quotient in words of 64 bits. The product is less than half of what its word holds, and the result
lies between the ends, so no word is left on the way. Down the edge the result moves to one side
only, and it is where the edge is, rounded towards the upper end.

## Main definitions

- `Segment.advance`: how far an edge leads along the lines on its way down to one.
- `Segment.FitsAt`: what is computed for a crossing fits the words that it is computed in.
- `Segment.crossing_interpolates`: where an edge meets the lines between its ends.
-/

namespace FloatLayout

/-- A quotient that is not negative is rounded down. -/
theorem tdiv_le_div_of_nonneg {n d : Int} (hd : 0 < d) (hn : 0 ≤ n) : (n.tdiv d : ℚ) ≤ n / d := by
  have hd' : (0 : ℚ) < d := Int.cast_pos.2 hd
  have hle : n.tdiv d * d ≤ n := by
    have := Int.tdiv_mul_add_tmod n d
    have := Int.tmod_nonneg d hn
    omega
  rw [le_div_iff₀ hd']
  exact_mod_cast hle

/-- A quotient that is not positive is rounded up. -/
theorem div_le_tdiv_of_nonpos {n d : Int} (hd : 0 < d) (hn : n ≤ 0) : (n / d : ℚ) ≤ n.tdiv d := by
  have hneg := tdiv_le_div_of_nonneg hd (Int.neg_nonneg_of_nonpos hn)
  rw [Int.neg_tdiv, Int.cast_neg, Int.cast_neg, neg_div] at hneg
  exact neg_le_neg_iff.1 hneg

namespace Segment

variable {s : Segment} {y : Length}

/-- How far an edge leads along the lines on its way down to one, rounded towards zero. -/
def advance (s : Segment) (y : Length) : Int :=
  ((y.units - s.upper.y.units) * (s.lower.x.units - s.upper.x.units)).tdiv
    (s.lower.y.units - s.upper.y.units)

/-- Every number on the way to where an edge meets a line fits a word of 64 bits, the divisor is not
    zero, and the result keeps its value in a word of 32 bits. -/
structure FitsAt (s : Segment) (y : Length) : Prop where
  down : Word.bits64.Fits (y.units - s.upper.y.units)
  along : Word.bits64.Fits (s.lower.x.units - s.upper.x.units)
  across : Word.bits64.Fits
    ((y.units - s.upper.y.units) * (s.lower.x.units - s.upper.x.units))
  height : Word.bits64.Fits (s.lower.y.units - s.upper.y.units)
  height_pos : 0 < s.lower.y.units - s.upper.y.units
  advance : Word.bits64.Fits (s.advance y)
  result : Word.bits64.Fits (s.upper.x.units + s.advance y)
  narrowed : (Int32.ofInt (s.upper.x.units + s.advance y)).toInt = s.upper.x.units + s.advance y

theorem fitsAt (hheight : s.upper.y < s.lower.y) (hupper : s.upper.y ≤ y)
    (hlower : y ≤ s.lower.y) : s.FitsAt y := by
  have hresult : (s.xAt y).units = s.upper.x.units + s.advance y := units_xAt hheight hupper hlower
  have hadvance : s.advance y = (s.xAt y).units - s.upper.x.units := by omega
  have := (s.xAt y).lower
  have := (s.xAt y).upper
  constructor
  case down => exact Length.fits64_sub y s.upper.y
  case along => exact Length.fits64_sub s.lower.x s.upper.x
  case across => exact Length.fits64_sub_mul_sub y s.upper.y s.lower.x s.upper.x
  case height => exact Length.fits64_sub s.lower.y s.upper.y
  case height_pos => exact Int.sub_pos_of_lt hheight
  case advance => exact hadvance ▸ Length.fits64_sub (s.xAt y) s.upper.x
  case result => exact Word.fits64_of_natAbs_le (by omega)
  case narrowed => exact Int32.toInt_ofInt_of_le (by omega) (by omega)

theorem xAt_between (hheight : s.upper.y < s.lower.y) (hupper : s.upper.y ≤ y)
    (hlower : y ≤ s.lower.y) :
    min s.upper.x s.lower.x ≤ s.xAt y ∧ s.xAt y ≤ max s.upper.x s.lower.x := by
  have hends : s.xAt s.lower.y = s.lower.x := xAt_lower (ne_of_lt hheight)
  simp only [Length.le_def, Length.units_min, Length.units_max]
  rcases Int.le_total s.upper.x.units s.lower.x.units with halong | halong
  · have hfirst := xAt_mono hheight halong hupper
    have hlast := xAt_mono hheight halong hlower
    rw [xAt_upper, Length.le_def] at hfirst
    rw [hends, Length.le_def] at hlast
    omega
  · have hfirst := xAt_anti hheight halong hupper
    have hlast := xAt_anti hheight halong hlower
    rw [xAt_upper, Length.le_def] at hfirst
    rw [hends, Length.le_def] at hlast
    omega

/-- The position of an edge on a line is rounded towards its upper end. -/
theorem xAt_toward_upper (hheight : s.upper.y < s.lower.y) (hupper : s.upper.y ≤ y)
    (hlower : y ≤ s.lower.y) :
    (s.upper.x ≤ s.lower.x → ((s.xAt y).units : ℚ) ≤ s.intercept y) ∧
      (s.lower.x ≤ s.upper.x → s.intercept y ≤ (s.xAt y).units) := by
  have hdown : 0 ≤ y.units - s.upper.y.units := Int.sub_nonneg_of_le hupper
  have hpos : 0 < s.lower.y.units - s.upper.y.units := Int.sub_pos_of_lt hheight
  rw [units_xAt hheight hupper hlower, Int.cast_add, intercept]
  constructor
  · intro halong
    have hacross := Int.mul_nonneg hdown (Int.sub_nonneg_of_le halong)
    exact add_le_add_right (tdiv_le_div_of_nonneg hpos hacross) _
  · intro halong
    have hacross := Int.mul_nonpos_of_nonneg_of_nonpos hdown (Int.sub_nonpos_of_le halong)
    exact add_le_add_right (div_le_tdiv_of_nonpos hpos hacross) _

/-- Where an edge meets the lines between its ends is computed without leaving a word, and lies
    between the ends. It is the position of the end at either end, moves to one side only on the way
    down, and is less than one unit away from where the edge is, towards the upper end. -/
theorem crossing_interpolates (hheight : s.upper.y < s.lower.y) :
    (∀ y, s.upper.y ≤ y → y ≤ s.lower.y →
      s.FitsAt y ∧ ∃ x, s.crossing y = .ok x ∧ x.units = s.upper.x.units + s.advance y ∧
        (min s.upper.x s.lower.x ≤ x ∧ x ≤ max s.upper.x s.lower.x) ∧
        |(x.units : ℚ) - s.intercept y| < 1 ∧
        (s.upper.x ≤ s.lower.x → (x.units : ℚ) ≤ s.intercept y) ∧
        (s.lower.x ≤ s.upper.x → s.intercept y ≤ x.units)) ∧
      (s.crossing s.upper.y = .ok s.upper.x ∧ s.crossing s.lower.y = .ok s.lower.x) ∧
      ∀ y₁ y₂ x₁ x₂, s.upper.y ≤ y₁ → y₁ ≤ y₂ → y₂ ≤ s.lower.y →
        s.crossing y₁ = .ok x₁ → s.crossing y₂ = .ok x₂ →
          (s.upper.x ≤ s.lower.x → x₁ ≤ x₂) ∧ (s.lower.x ≤ s.upper.x → x₂ ≤ x₁) := by
  have hne : s.upper.y ≠ s.lower.y := ne_of_lt hheight
  have hcrossing : ∀ y, s.upper.y ≤ y → y ≤ s.lower.y → s.crossing y = .ok (s.xAt y) :=
    fun y hupper hlower => crossing_eq_xAt hupper hlower hne
  have hle := le_of_lt hheight
  refine ⟨fun y hupper hlower => ?_, ⟨?_, ?_⟩, fun y₁ y₂ x₁ x₂ hupper h hlower hx₁ hx₂ => ?_⟩
  · obtain ⟨hfloor, hceil⟩ := xAt_rounds hheight hupper hlower
    exact ⟨fitsAt hheight hupper hlower, s.xAt y, hcrossing y hupper hlower,
      units_xAt hheight hupper hlower, xAt_between hheight hupper hlower,
      abs_sub_lt_one_of_rounds hfloor hceil, xAt_toward_upper hheight hupper hlower⟩
  · rw [hcrossing _ (le_refl _) hle, xAt_upper]
  · rw [hcrossing _ hle (le_refl _), xAt_lower hne]
  · cases (hcrossing y₁ hupper (le_trans h hlower)).symm.trans hx₁
    cases (hcrossing y₂ (le_trans hupper h) hlower).symm.trans hx₂
    exact ⟨fun halong => xAt_mono hheight halong h, fun halong => xAt_anti hheight halong h⟩

/-- An edge that runs to line-left across the whole range of lengths, and one unit less down. -/
def widest : Segment := ⟨⟨.greatest, .least⟩, ⟨.least, 1073741822⟩⟩

/-- In the middle, `widest` is about half a unit to the left of where it is said to be. -/
theorem widest_crossing_interpolates :
    widest.upper.y < widest.lower.y ∧ widest.FitsAt 0 ∧ widest.FitsAt widest.lower.y ∧
      widest.crossing 0 = .ok 0 ∧ widest.intercept 0 = -1073741823 / 2147483645 ∧
      |(0 : ℚ) - widest.intercept 0| < 1 ∧ widest.intercept 0 ≤ 0 ∧
      widest.crossing widest.lower.y = .ok .least ∧ (.least : Length) ≤ 0 := by
  have hheight : widest.upper.y < widest.lower.y := by decide
  obtain ⟨hbetween, ⟨-, hend⟩, hmoves⟩ := crossing_interpolates hheight
  have hzero : widest.crossing 0 = .ok 0 := by decide
  obtain ⟨hfits, x, hx, -, -, hnear, -, htoward⟩ := hbetween 0 (by decide) (by decide)
  obtain ⟨hfitsEnd, -⟩ := hbetween widest.lower.y (by decide) (by decide)
  cases hzero.symm.trans hx
  have hexact : widest.intercept 0 = -1073741823 / 2147483645 := by decide +kernel
  refine ⟨hheight, hfits, hfitsEnd, hzero, hexact, hnear, htoward (by decide), hend, ?_⟩
  exact (hmoves 0 _ _ _ (by decide) (by decide) (by decide) hzero hend).2 (by decide)

end Segment

end FloatLayout
