import FloatLayout.Binary.Rounding
import Mathlib.Algebra.Field.Rat
import Mathlib.Algebra.Order.Field.Basic
import Mathlib.Algebra.Order.Ring.Rat

/-!
# Order of rounded numbers

Rounding never passes a number that has the precision, so a result computed in several rounded steps
stays between bounds that have it. That it keeps the order of two numbers follows from this: between
numbers of different scale there is a power of two, and numbers of one scale are rounded on one grid.

## Main definitions

- `Binary.exponent_spec`: the power of two below a number.
- `Binary.onGrid`: the nearest point of a grid.
- `Binary.Stored`: a number of a precision.
- `Binary.round_le_of_le`, `Binary.le_round_of_le`: a rounded number beside one of the precision.
- `Binary.round_mono`: rounding keeps the order.
- `Binary.sqrt_le_one`: the rounded root of a number up to one.
-/

namespace FloatLayout.Binary

variable {p : Nat} {a b e n : Int} {r s v : Rat}

-- ════════════════════════════════════════════════════════════════════════
-- Powers of two
-- ════════════════════════════════════════════════════════════════════════

theorem two_zpow_natCast (n : Nat) : (2 : Rat) ^ (n : Int) = (2 ^ n : Nat) := by
  rw [Rat.zpow_natCast, Rat.natCast_pow]
  rfl

-- ════════════════════════════════════════════════════════════════════════
-- Scale
-- ════════════════════════════════════════════════════════════════════════

theorem two_zpow_log2_le {m : Nat} (h : m ≠ 0) :
    (2 : Rat) ^ (m.log2 : Int) ≤ m ∧ (m : Rat) < 2 ^ (m.log2 + 1 : Int) := by
  have hnext : ((m.log2 : Int) + 1) = (m.log2 + 1 : Nat) := rfl
  rw [hnext, two_zpow_natCast, two_zpow_natCast]
  exact ⟨Rat.natCast_le_natCast.2 (Nat.log2_self_le h), Rat.natCast_lt_natCast.2 Nat.lt_log2_self⟩

theorem abs_mul_den (r : Rat) : r.abs * r.den = r.num.natAbs := by
  have hnum : r * r.den = r.num := Rat.mul_den_eq_num r
  by_cases hr : 0 ≤ r
  · rw [Rat.abs_of_nonneg hr, hnum, ← Rat.intCast_natCast,
      Int.natAbs_of_nonneg (Rat.num_nonneg.2 hr)]
  · have hneg : r.num < 0 := Int.not_le.1 fun h => hr (Rat.num_nonneg.1 h)
    have habs : (r.num.natAbs : Int) = -r.num := Int.ofNat_natAbs_of_nonpos (Int.le_of_lt hneg)
    rw [Rat.abs_of_nonpos (Rat.le_of_lt (Rat.not_le.1 hr)), Rat.neg_mul, hnum,
      ← Rat.intCast_natCast, habs, Rat.intCast_neg]

/-- A number lies between the power of two of its exponent and the next one. -/
theorem exponent_spec (h : r ≠ 0) :
    (2 : Rat) ^ exponent r ≤ r.abs ∧ r.abs < 2 ^ (exponent r + 1) := by
  have hden : (0 : Rat) < r.den := Rat.natCast_pos.2 r.den_pos
  obtain ⟨hnumLow, hnumHigh⟩ : (2 : Rat) ^ (r.num.natAbs.log2 : Int) ≤ r.num.natAbs ∧
      (r.num.natAbs : Rat) < 2 ^ (r.num.natAbs.log2 + 1 : Int) :=
    two_zpow_log2_le fun h0 => h (Rat.num_eq_zero.1 (Int.natAbs_eq_zero.1 h0))
  obtain ⟨hdenLow, hdenHigh⟩ := two_zpow_log2_le r.den_nz
  -- The lengths of numerator and denominator give the exponent, or one more.
  have hlow : (2 : Rat) ^ ((r.num.natAbs.log2 : Int) - r.den.log2 - 1) ≤ r.abs := by
    refine Rat.le_of_mul_le_mul_right ?_ hden
    calc (2 : Rat) ^ ((r.num.natAbs.log2 : Int) - r.den.log2 - 1) * r.den
        ≤ 2 ^ ((r.num.natAbs.log2 : Int) - r.den.log2 - 1) * 2 ^ (r.den.log2 + 1 : Int) :=
          Rat.mul_le_mul_of_nonneg_left (Rat.le_of_lt hdenHigh) (Rat.le_of_lt (zpow_pos two_pos _))
      _ = 2 ^ (r.num.natAbs.log2 : Int) := by
          rw [← zpow_add₀ two_ne_zero]
          congr 1
          omega
      _ ≤ r.num.natAbs := hnumLow
      _ = r.abs * r.den := (abs_mul_den r).symm
  have hhigh : r.abs < (2 : Rat) ^ ((r.num.natAbs.log2 : Int) - r.den.log2 + 1) := by
    refine Rat.lt_of_mul_lt_mul_right ?_ (Rat.le_of_lt hden)
    rw [abs_mul_den]
    refine Rat.not_le.1 fun hle => Rat.not_le.2 hnumHigh ?_
    calc (2 : Rat) ^ (r.num.natAbs.log2 + 1 : Int)
        = 2 ^ ((r.num.natAbs.log2 : Int) - r.den.log2 + 1) * 2 ^ (r.den.log2 : Int) := by
          rw [← zpow_add₀ two_ne_zero]
          congr 1
          omega
      _ ≤ 2 ^ ((r.num.natAbs.log2 : Int) - r.den.log2 + 1) * r.den :=
          Rat.mul_le_mul_of_nonneg_left hdenLow (Rat.le_of_lt (zpow_pos two_pos _))
      _ ≤ r.num.natAbs := hle
  unfold exponent
  dsimp only
  split
  · next hlt => exact ⟨hlow, by rwa [Int.sub_add_cancel]⟩
  · next hlt => exact ⟨Rat.not_lt.1 hlt, hhigh⟩

theorem spacing_pos (p : Nat) (e : Int) : 0 < spacing p e := zpow_pos two_pos _

theorem two_zpow_eq_mul_spacing (hp : 0 < p) (e : Int) :
    (2 : Rat) ^ e = ((2 ^ (p - 1) : Nat) : Int) * spacing p e := by
  rw [Rat.intCast_natCast, ← two_zpow_natCast, spacing, ← zpow_add₀ two_ne_zero]
  congr 1
  omega

-- ════════════════════════════════════════════════════════════════════════
-- Whole numbers
-- ════════════════════════════════════════════════════════════════════════

theorem floor_le_nearest (r : Rat) : r.floor ≤ nearest r := by
  unfold nearest
  dsimp only
  split
  · exact Int.le_refl _
  · split
    · omega
    · split <;> omega

theorem nearest_le_floor_add_one (r : Rat) : nearest r ≤ r.floor + 1 := by
  unfold nearest
  dsimp only
  split
  · omega
  · split
    · exact Int.le_refl _
    · split <;> omega

theorem nearest_intCast (n : Int) : nearest n = n := by
  have hrest : (n : Rat) - n < 1 / 2 := by grind
  unfold nearest
  rw [Rat.floor_intCast]
  exact if_pos hrest

theorem nearest_mono (h : r ≤ s) : nearest r ≤ nearest s := by
  rcases Int.lt_or_eq_of_le (Rat.floor_monotone h) with hlt | heq
  · have := nearest_le_floor_add_one r
    have := floor_le_nearest s
    omega
  · -- Above the same whole number, only the fractions decide.
    unfold nearest
    rw [heq]
    dsimp only
    by_cases hr : r - s.floor < 1 / 2
    · rw [if_pos hr]
      have := floor_le_nearest s
      unfold nearest at this
      exact this
    · have hs : ¬s - s.floor < 1 / 2 := by grind
      rw [if_neg hr, if_neg hs]
      by_cases hr' : 1 / 2 < r - s.floor
      · have hs' : 1 / 2 < s - s.floor := by grind
        exact Int.le_of_eq (by rw [if_pos hr', if_pos hs'])
      · rw [if_neg hr']
        split <;> split <;> omega

/-- The point nearest to `r` of the grid with distance `unit`. -/
def onGrid (unit r : Rat) : Rat := nearest (r / unit) * unit

theorem onGrid_mono {unit : Rat} (hunit : 0 < unit) (h : r ≤ s) : onGrid unit r ≤ onGrid unit s := by
  have hdiv : r / unit ≤ s / unit := div_le_div_of_nonneg_right h (Rat.le_of_lt hunit)
  exact Rat.mul_le_mul_of_nonneg_right (Rat.intCast_le_intCast.2 (nearest_mono hdiv))
    (Rat.le_of_lt hunit)

theorem onGrid_mul {unit : Rat} (hunit : 0 < unit) (n : Int) : onGrid unit (n * unit) = n * unit := by
  rw [onGrid, Rat.mul_div_cancel (Rat.ne_of_gt hunit), nearest_intCast]

-- ════════════════════════════════════════════════════════════════════════
-- Numbers of a precision
-- ════════════════════════════════════════════════════════════════════════

/-- A number of precision `p`. -/
def Stored (p : Nat) (v : Rat) : Prop :=
  ∃ m e : Int, m.natAbs < 2 ^ p ∧ v = m * 2 ^ e

namespace Stored

theorem intCast (h : n.natAbs < 2 ^ p) : Stored p n :=
  ⟨n, 0, h, by rw [Rat.zpow_zero, Rat.mul_one]⟩

theorem zero (p : Nat) : Stored p 0 := intCast (Nat.two_pow_pos p)

theorem two_zpow (hp : 0 < p) (e : Int) : Stored p (2 ^ e) :=
  ⟨1, e, Nat.one_lt_two_pow (Nat.ne_of_gt hp), (Rat.one_mul _).symm⟩

theorem neg (h : Stored p v) : Stored p (-v) := by
  obtain ⟨m, e, hm, rfl⟩ := h
  exact ⟨-m, e, by rwa [Int.natAbs_neg], by rw [Rat.intCast_neg, Rat.neg_mul]⟩

/-- A number of a precision lies on the grid of a scale, or it is too small for the scale. -/
theorem eq_mul_spacing_or_lt (h : Stored p v) (e : Int) :
    (∃ n : Int, v = n * spacing p e) ∨ -(2 : Rat) ^ e < v ∧ v < 2 ^ e := by
  obtain ⟨m, k, hm, rfl⟩ := h
  by_cases hk : e - p + 1 ≤ k
  · left
    refine ⟨m * (2 ^ (k - (e - p + 1)).toNat : Nat), ?_⟩
    rw [Rat.intCast_mul, Rat.intCast_natCast, ← two_zpow_natCast, Rat.mul_assoc, spacing,
      ← zpow_add₀ two_ne_zero]
    congr 2
    omega
  · right
    have hpow : (2 : Rat) ^ (p : Int) * 2 ^ k ≤ 2 ^ e := by
      rw [← zpow_add₀ two_ne_zero]
      exact zpow_le_zpow_right₀ one_le_two (by omega)
    have hhigh : (m : Rat) < 2 ^ (p : Int) := by
      rw [two_zpow_natCast, ← Rat.intCast_natCast, Rat.intCast_lt_intCast]
      omega
    have hlow : -(2 : Rat) ^ (p : Int) < m := by
      rw [two_zpow_natCast, ← Rat.intCast_natCast, ← Rat.intCast_neg, Rat.intCast_lt_intCast]
      omega
    have hhigh' := Rat.mul_lt_mul_of_pos_right hhigh (zpow_pos two_pos k)
    have hlow' := Rat.mul_lt_mul_of_pos_right hlow (zpow_pos two_pos k)
    rw [Rat.neg_mul] at hlow'
    grind

end Stored

-- ════════════════════════════════════════════════════════════════════════
-- Rounding
-- ════════════════════════════════════════════════════════════════════════

theorem round_zero (p : Nat) : round p 0 = 0 := if_pos rfl

theorem round_eq (h : r ≠ 0) : round p r = onGrid (spacing p (exponent r)) r := if_neg h

theorem mul_spacing_le_round (h : r ≠ 0) (hn : n * spacing p (exponent r) ≤ r) :
    n * spacing p (exponent r) ≤ round p r := by
  have hunit := spacing_pos p (exponent r)
  rw [round_eq h, ← onGrid_mul hunit n]
  exact onGrid_mono hunit hn

theorem round_le_mul_spacing (h : r ≠ 0) (hn : r ≤ n * spacing p (exponent r)) :
    round p r ≤ n * spacing p (exponent r) := by
  have hunit := spacing_pos p (exponent r)
  rw [round_eq h, ← onGrid_mul hunit n]
  exact onGrid_mono hunit hn

/-- Rounding does not pass a number of the precision from below. -/
theorem round_le_of_le (hp : 0 < p) (hv : Stored p v) (h : r ≤ v) : round p r ≤ v := by
  by_cases hr : r = 0
  · rwa [hr, round_zero, ← hr]
  · rcases hv.eq_mul_spacing_or_lt (exponent r) with ⟨n, rfl⟩ | ⟨hlow, hhigh⟩
    · exact round_le_mul_spacing hr h
    · -- A number of a greater scale than `v` lies below `v` only if it is negative.
      obtain ⟨hscale, -⟩ := exponent_spec hr
      have hneg : r ≤ 0 := by
        refine Rat.not_lt.1 fun hpos => ?_
        rw [Rat.abs_of_nonneg (Rat.le_of_lt hpos)] at hscale
        grind
      rw [Rat.abs_of_nonpos hneg] at hscale
      have hgrid := two_zpow_eq_mul_spacing hp (exponent r)
      have hround : round p r ≤ (-((2 ^ (p - 1) : Nat) : Int) : Int) * spacing p (exponent r) := by
        refine round_le_mul_spacing hr ?_
        rw [Rat.intCast_neg, Rat.neg_mul, ← hgrid]
        grind
      rw [Rat.intCast_neg, Rat.neg_mul, ← hgrid] at hround
      grind

/-- Rounding does not pass a number of the precision from above. -/
theorem le_round_of_le (hp : 0 < p) (hv : Stored p v) (h : v ≤ r) : v ≤ round p r := by
  by_cases hr : r = 0
  · rwa [hr, round_zero, ← hr]
  · rcases hv.eq_mul_spacing_or_lt (exponent r) with ⟨n, rfl⟩ | ⟨hlow, hhigh⟩
    · exact mul_spacing_le_round hr h
    · obtain ⟨hscale, -⟩ := exponent_spec hr
      have hpos : 0 ≤ r := by
        refine Rat.not_lt.1 fun hneg => ?_
        rw [Rat.abs_of_nonpos (Rat.le_of_lt hneg)] at hscale
        grind
      rw [Rat.abs_of_nonneg hpos] at hscale
      have hround := mul_spacing_le_round (n := ((2 ^ (p - 1) : Nat) : Int)) hr
        (two_zpow_eq_mul_spacing hp (exponent r) ▸ hscale)
      rw [← two_zpow_eq_mul_spacing hp] at hround
      grind

/-- Rounding keeps the order. -/
theorem round_mono (hp : 0 < p) (h : r ≤ s) : round p r ≤ round p s := by
  have hbetween : ∀ v, Stored p v → r ≤ v → v ≤ s → round p r ≤ round p s := fun v hv hr hs =>
    Rat.le_trans (round_le_of_le hp hv hr) (le_round_of_le hp hv hs)
  by_cases hr : r = 0
  · exact hbetween 0 (.zero p) (hr ▸ Rat.le_refl) (hr ▸ h)
  by_cases hs : s = 0
  · exact hbetween 0 (.zero p) (hs ▸ h) (hs ▸ Rat.le_refl)
  obtain ⟨hrlow, hrhigh⟩ := exponent_spec hr
  obtain ⟨hslow, hshigh⟩ := exponent_spec hs
  -- A power of two divides numbers of different scale, and it is the one that is greater.
  unfold Rat.abs at hrlow hrhigh hslow hshigh
  rcases Int.lt_trichotomy (exponent r) (exponent s) with hlt | heq | hgt
  · have hscale : (2 : Rat) ^ (exponent r + 1) ≤ 2 ^ exponent s := zpow_le_zpow_right₀ one_le_two hlt
    refine hbetween _ (.two_zpow hp (exponent s)) ?_ ?_ <;> grind
  · rw [round_eq hr, round_eq hs, heq]
    exact onGrid_mono (spacing_pos p (exponent s)) h
  · have hscale : (2 : Rat) ^ (exponent s + 1) ≤ 2 ^ exponent r := zpow_le_zpow_right₀ one_le_two hgt
    refine hbetween _ (Stored.two_zpow hp (exponent r)).neg ?_ ?_ <;> grind

-- ════════════════════════════════════════════════════════════════════════
-- Square roots
-- ════════════════════════════════════════════════════════════════════════

theorem wholeSqrt_mul_self_le (digits n : Nat) :
    wholeSqrt digits n * wholeSqrt digits n ≤ n := by
  induction digits generalizing n with
  | zero => exact Nat.zero_le n
  | succ digits ih =>
    rw [wholeSqrt]
    split
    · assumption
    · have hquarter := ih (n / 4)
      have hdouble : 2 * wholeSqrt digits (n / 4) * (2 * wholeSqrt digits (n / 4)) =
          4 * (wholeSqrt digits (n / 4) * wholeSqrt digits (n / 4)) := by grind
      omega

/-- The whole root of a number up to a square is at most the root of the square. -/
theorem wholeSqrt_floor_le {digits m : Nat} (h : r ≤ (m : Rat) * m) :
    wholeSqrt digits r.floor.toNat ≤ m := by
  have hfloor : r.floor ≤ (m * m : Nat) := by
    rw [← Rat.intCast_le_intCast, Rat.intCast_natCast, Rat.natCast_mul]
    exact Rat.le_trans (Rat.floor_le r) h
  have hroot := wholeSqrt_mul_self_le digits r.floor.toNat
  exact Nat.mul_self_le_mul_self_iff.1 (by omega)

/-- It is less than that when the middle between it and the next one is not past the root. -/
theorem wholeSqrt_floor_lt {digits m : Nat} (h : r ≤ (m : Rat) * m)
    (hmiddle : ((wholeSqrt digits r.floor.toNat : Rat) + 1 / 2) *
      ((wholeSqrt digits r.floor.toNat : Rat) + 1 / 2) ≤ r) :
    wholeSqrt digits r.floor.toNat < m := by
  have hle := nonneg_le_nonneg_of_sq_le_sq Rat.natCast_nonneg (Rat.le_trans hmiddle h)
  have hlt : (wholeSqrt digits r.floor.toNat : Rat) < m := by grind
  exact Rat.natCast_lt_natCast.1 hlt

theorem sqrt_nonneg (p : Nat) (r : Rat) : 0 ≤ sqrt p r := by
  have hunit := Rat.le_of_lt (spacing_pos p (exponent r / 2))
  unfold sqrt
  split
  · exact Rat.le_refl
  · dsimp only
    split <;> exact Rat.mul_nonneg Rat.natCast_nonneg hunit

theorem exponent_nonpos (hpos : 0 < r) (h : r ≤ 1) : exponent r ≤ 0 := by
  obtain ⟨hscale, -⟩ := exponent_spec (Rat.ne_of_gt hpos)
  rw [Rat.abs_of_nonneg (Rat.le_of_lt hpos)] at hscale
  refine Int.not_lt.1 fun hlt => ?_
  have htwo : (2 : Rat) ^ (1 : Int) ≤ 2 ^ exponent r := zpow_le_zpow_right₀ one_le_two hlt
  rw [Rat.zpow_one] at htwo
  grind

/-- One lies on the grid of every scale up to it. -/
theorem exists_mul_spacing_eq_one (hp : 0 < p) (he : e ≤ 0) :
    ∃ m : Nat, (m : Rat) * spacing p e = 1 := by
  refine ⟨2 ^ ((p : Int) - 1 - e).toNat, ?_⟩
  rw [← two_zpow_natCast, spacing, ← zpow_add₀ two_ne_zero, ← Rat.zpow_zero 2]
  congr 1
  omega

/-- Rounding does not move the root of a number up to one past one. -/
theorem sqrt_le_one (hp : 0 < p) (h : r ≤ 1) : sqrt p r ≤ 1 := by
  unfold sqrt
  split
  · decide
  · next hr =>
    have hexponent := exponent_nonpos (Rat.not_le.1 hr) h
    have hunit := spacing_pos p (exponent r / 2)
    have hsquare := Rat.mul_pos hunit hunit
    -- In units, the root is at most the number of them in one.
    obtain ⟨m, hm⟩ := exists_mul_spacing_eq_one hp (show exponent r / 2 ≤ 0 by omega)
    have hone : (m : Rat) * m * (spacing p (exponent r / 2) * spacing p (exponent r / 2)) = 1 := by
      calc _ = (m * spacing p (exponent r / 2)) * (m * spacing p (exponent r / 2)) := by grind
        _ = 1 := by rw [hm, Rat.mul_one]
    have hscaled : r / (spacing p (exponent r / 2) * spacing p (exponent r / 2)) ≤
        (m : Rat) * m := by
      rwa [div_le_iff₀ hsquare, hone]
    have hle : ∀ k : Nat, k ≤ m → (k : Rat) * spacing p (exponent r / 2) ≤ 1 := fun k hk =>
      hm ▸ Rat.mul_le_mul_of_nonneg_right (Rat.natCast_le_natCast.2 hk) (Rat.le_of_lt hunit)
    dsimp only
    split
    · next hup =>
      exact hle _ (wholeSqrt_floor_lt hscaled (Rat.le_iff_lt_or_eq.2 (hup.imp_right And.left)))
    · exact hle _ (wholeSqrt_floor_le hscaled)

-- ════════════════════════════════════════════════════════════════════════
-- Fractions
-- ════════════════════════════════════════════════════════════════════════

theorem truncate_of_nonneg (h : 0 ≤ r) : truncate r = r.floor := by
  rw [truncate, Rat.floor_def, Int.tdiv_eq_ediv_of_nonneg (Rat.num_nonneg.2 h)]

theorem truncate_neg (r : Rat) : truncate (-r) = -truncate r := by
  rw [truncate, truncate, Rat.neg_num, Rat.neg_den, Int.neg_tdiv]

theorem truncate_mem (h : 0 ≤ r) (hn : r ≤ n) : 0 ≤ truncate r ∧ truncate r ≤ n := by
  rw [truncate_of_nonneg h]
  refine ⟨Rat.le_floor_iff.2 h, ?_⟩
  rw [← Rat.intCast_le_intCast]
  exact Rat.le_trans (Rat.floor_le r) hn

/-- A number between zero and a whole number stays there without its fraction. -/
theorem truncate_between (hlow : (min 0 n : Int) ≤ r) (hhigh : r ≤ (max 0 n : Int)) :
    min 0 n ≤ truncate r ∧ truncate r ≤ max 0 n := by
  by_cases hr : 0 ≤ r
  · have := truncate_mem hr hhigh
    omega
  · have hneg : 0 ≤ -r := by grind
    have hbound : -r ≤ (-min 0 n : Int) := by
      rw [Rat.intCast_neg]
      exact Rat.neg_le_neg hlow
    have := truncate_mem hneg hbound
    rw [truncate_neg] at this
    omega

-- ════════════════════════════════════════════════════════════════════════
-- Numbers between bounds
-- ════════════════════════════════════════════════════════════════════════

theorem round_between (hp : 0 < p) (hn : n.natAbs < 2 ^ p) (hlow : (min 0 n : Int) ≤ r)
    (hhigh : r ≤ (max 0 n : Int)) :
    (min 0 n : Int) ≤ round p r ∧ round p r ≤ (max 0 n : Int) :=
  ⟨le_round_of_le hp (.intCast (by omega)) hlow, round_le_of_le hp (.intCast (by omega)) hhigh⟩

theorem round_mem_unit (hp : 0 < p) (hlow : 0 ≤ r) (hhigh : r ≤ 1) :
    0 ≤ round p r ∧ round p r ≤ 1 := by
  have hone : (1 : Int).natAbs < 2 ^ p := Nat.one_lt_two_pow (Nat.ne_of_gt hp)
  exact round_between (n := 1) hp hone hlow hhigh

/-- A part of a whole number lies between zero and the number. -/
theorem mul_between (hlow : 0 ≤ r) (hhigh : r ≤ 1) :
    (min 0 n : Int) ≤ n * r ∧ n * r ≤ (max 0 n : Int) := by
  by_cases hn : 0 ≤ n
  · rw [Int.min_eq_left hn, Int.max_eq_right hn]
    have hn' := Rat.intCast_nonneg.2 hn
    have hpart := Rat.mul_le_mul_of_nonneg_left hhigh hn'
    rw [Rat.mul_one] at hpart
    exact ⟨Rat.mul_nonneg hn' hlow, hpart⟩
  · have hn' : n ≤ 0 := Int.le_of_lt (Int.not_le.1 hn)
    rw [Int.min_eq_right hn', Int.max_eq_left hn']
    have hneg : (0 : Rat) ≤ -n := by
      rw [← Rat.intCast_neg]
      exact Rat.intCast_nonneg.2 (by omega)
    have hpart := Rat.mul_le_mul_of_nonneg_left hhigh hneg
    have hzero := Rat.mul_nonneg hneg hlow
    rw [Rat.neg_mul] at hpart hzero
    constructor
    · grind
    · change (n : Rat) * r ≤ 0
      grind

end FloatLayout.Binary
