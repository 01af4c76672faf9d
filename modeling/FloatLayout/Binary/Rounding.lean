/-!
# Rounding to binary precision

A binary number of precision `p` is a whole number below `2 ^ p` in magnitude, times a power of
two. Every computation here is done exactly on rational numbers and then brought to the nearest
number of the precision; of two equally near ones the one with an even last digit is taken. The
exponent is not bounded, because nothing computed here comes near the ends of a stored exponent.

## Main definitions

- `Binary.round`: the nearest number of a precision.
- `Binary.sqrt`: the number of a precision nearest to a square root.
- `Binary.truncate`: a rational number without its fraction.
- `Binary.single`, `Binary.double`: the precisions of stored numbers.
-/

namespace FloatLayout.Binary

/-- The precision of a number stored in 32 bits. -/
def single : Nat := 24

/-- The precision of a number stored in 64 bits. -/
def double : Nat := 53

-- ════════════════════════════════════════════════════════════════════════
-- Whole numbers
-- ════════════════════════════════════════════════════════════════════════

/-- The whole number nearest to `r`; of two, the even one. -/
def nearest (r : Rat) : Int :=
  let below := r.floor
  let rest := r - below
  if rest < 1 / 2 then below
  else if 1 / 2 < rest then below + 1
  else if below % 2 = 0 then below else below + 1

/-- `r` without its fraction. -/
def truncate (r : Rat) : Int := r.num.tdiv r.den

/-- The whole square root of `n`, when `n` has at most `2 * digits` binary digits. -/
def wholeSqrt : (digits : Nat) → (n : Nat) → Nat
  | 0, _ => 0
  | digits + 1, n =>
    let root := 2 * wholeSqrt digits (n / 4)
    if (root + 1) * (root + 1) ≤ n then root + 1 else root

-- ════════════════════════════════════════════════════════════════════════
-- Scale
-- ════════════════════════════════════════════════════════════════════════

/-- The greatest `e` with `2 ^ e ≤ |r|`, for `r` other than zero. -/
def exponent (r : Rat) : Int :=
  let e : Int := r.num.natAbs.log2 - r.den.log2
  if r.abs < (2 : Rat) ^ e then e - 1 else e

/-- The distance between neighbouring numbers of precision `p` that are at least `2 ^ e`. -/
def spacing (p : Nat) (e : Int) : Rat := (2 : Rat) ^ (e - p + 1)

-- ════════════════════════════════════════════════════════════════════════
-- Rounding
-- ════════════════════════════════════════════════════════════════════════

/-- The number of precision `p` nearest to `r`. -/
def round (p : Nat) (r : Rat) : Rat :=
  if r = 0 then 0
  else
    let unit := spacing p (exponent r)
    nearest (r / unit) * unit

/-- The number of precision `p` nearest to the square root of `r`, or zero if `r` is negative. -/
def sqrt (p : Nat) (r : Rat) : Rat :=
  if r ≤ 0 then 0
  else
    let unit := spacing p (exponent r / 2)
    let scaled := r / (unit * unit)
    let below := wholeSqrt p scaled.floor.toNat
    let middle : Rat := below + 1 / 2
    if middle * middle < scaled ∨ (middle * middle = scaled ∧ below % 2 = 1) then
      (below + 1 : Nat) * unit
    else below * unit

end FloatLayout.Binary
