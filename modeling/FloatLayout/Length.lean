/-!
# Lengths

A length is a whole number of app units, of which sixty make one CSS pixel. Lengths have a fixed
symmetric range, and sums and differences that leave it come back to its nearest end, so a
position far off the page stays far off the page.

## Main definitions

- `Length`: a number of app units within the range.
- `Length.clamp`: the length nearest to a whole number.
- `Length.ofInt?`: a whole number as a length, if it is in range.

## Design notes

The range is part of the type. A proof about lengths moves to whole numbers by `Length.ext_iff`,
`Length.le_def`, `Length.lt_def` and the `units` lemmas, where `omega` finishes it.
-/

namespace FloatLayout

/-- A length or a coordinate, in app units. -/
structure Length where
  /-- The number of app units. -/
  units : Int
  /-- No length is less than the least one. -/
  lower : -1073741823 ≤ units
  /-- No length is greater than the greatest one. -/
  upper : units ≤ 1073741823
deriving DecidableEq

namespace Length

@[ext] theorem ext {a b : Length} (h : a.units = b.units) : a = b := by
  cases a
  cases b
  cases h
  rfl

-- ════════════════════════════════════════════════════════════════════════
-- Range
-- ════════════════════════════════════════════════════════════════════════

/-- The greatest length. As a block size it stands for "unbounded". -/
def greatest : Length := ⟨1073741823, by decide, by decide⟩

/-- The least length. -/
def least : Length := ⟨-1073741823, by decide, by decide⟩

/-- The length nearest to `n`. -/
def clamp (n : Int) : Length :=
  ⟨max (-1073741823) (min n 1073741823), by omega, by omega⟩

/-- `n` as a length, if it is in range. -/
def ofInt? (n : Int) : Option Length :=
  if h : -1073741823 ≤ n ∧ n ≤ 1073741823 then some ⟨n, h.1, h.2⟩ else none

@[simp] theorem units_greatest : greatest.units = 1073741823 := rfl

@[simp] theorem units_least : least.units = -1073741823 := rfl

@[simp] theorem units_clamp (n : Int) :
    (clamp n).units = max (-1073741823) (min n 1073741823) := rfl

/-- Clamping keeps a number that is in range. -/
theorem units_clamp_of_mem {n : Int} (h : -1073741823 ≤ n) (h' : n ≤ 1073741823) :
    (clamp n).units = n := by
  simp only [units_clamp]
  omega

@[simp] theorem clamp_units (a : Length) : clamp a.units = a :=
  ext (units_clamp_of_mem a.lower a.upper)

theorem ofInt?_eq_some_iff {n : Int} {a : Length} : ofInt? n = some a ↔ a.units = n := by
  unfold ofInt?
  split
  · exact ⟨fun h => by cases h; rfl, fun h => congrArg some (ext h.symm)⟩
  · rename_i hn
    exact ⟨nofun, fun h => absurd ⟨h ▸ a.lower, h ▸ a.upper⟩ hn⟩

instance (n : Nat) : OfNat Length n := ⟨clamp n⟩

@[simp] theorem units_zero : (0 : Length).units = 0 := rfl

instance : Inhabited Length := ⟨0⟩

-- ════════════════════════════════════════════════════════════════════════
-- Arithmetic
-- ════════════════════════════════════════════════════════════════════════

instance : Add Length := ⟨fun a b => clamp (a.units + b.units)⟩

instance : Sub Length := ⟨fun a b => clamp (a.units - b.units)⟩

instance : Neg Length := ⟨fun a => ⟨-a.units, by have := a.upper; omega, by have := a.lower; omega⟩⟩

/-- The magnitude of a length. -/
def abs (a : Length) : Length :=
  ⟨a.units.natAbs, by omega, by have := a.lower; have := a.upper; omega⟩

@[simp] theorem units_add (a b : Length) :
    (a + b).units = max (-1073741823) (min (a.units + b.units) 1073741823) := rfl

@[simp] theorem units_sub (a b : Length) :
    (a - b).units = max (-1073741823) (min (a.units - b.units) 1073741823) := rfl

@[simp] theorem units_neg (a : Length) : (-a).units = -a.units := rfl

@[simp] theorem units_abs (a : Length) : a.abs.units = a.units.natAbs := rfl

@[simp] theorem add_zero (a : Length) : a + 0 = a := by
  have := a.lower
  have := a.upper
  simp only [Length.ext_iff, units_add, units_zero]
  omega

@[simp] theorem sub_zero (a : Length) : a - 0 = a := by
  have := a.lower
  have := a.upper
  simp only [Length.ext_iff, units_sub, units_zero]
  omega

@[simp] theorem sub_self (a : Length) : a - a = 0 := by
  simp only [Length.ext_iff, units_sub, units_zero]
  omega

/-- A sum that is a length is not clamped. -/
theorem add_eq_of_units {a b c : Length} (h : c.units = a.units + b.units) : a + b = c := by
  have := c.lower
  have := c.upper
  rw [Length.ext_iff, units_add]
  omega

theorem sub_eq_of_units {a b c : Length} (h : c.units = a.units - b.units) : a - b = c := by
  have := c.lower
  have := c.upper
  rw [Length.ext_iff, units_sub]
  omega

/-- The sum of two numbers of app units, if it is in range. -/
def sum? (a b : Int) : Option Length := ofInt? (a + b)

-- ════════════════════════════════════════════════════════════════════════
-- Order
-- ════════════════════════════════════════════════════════════════════════

instance : LE Length := ⟨fun a b => a.units ≤ b.units⟩

instance : LT Length := ⟨fun a b => a.units < b.units⟩

instance (a b : Length) : Decidable (a ≤ b) := inferInstanceAs (Decidable (a.units ≤ b.units))

instance (a b : Length) : Decidable (a < b) := inferInstanceAs (Decidable (a.units < b.units))

instance : Min Length := minOfLe

instance : Max Length := maxOfLe

theorem le_def {a b : Length} : a ≤ b ↔ a.units ≤ b.units := Iff.rfl

theorem lt_def {a b : Length} : a < b ↔ a.units < b.units := Iff.rfl

@[simp] theorem units_min (a b : Length) : (min a b).units = min a.units b.units := by
  simp only [min, le_def]
  split <;> rfl

@[simp] theorem units_max (a b : Length) : (max a b).units = max a.units b.units := by
  simp only [max, le_def]
  split <;> rfl

theorem le_greatest (a : Length) : a ≤ greatest := a.upper

theorem least_le (a : Length) : least ≤ a := a.lower

end Length

end FloatLayout
