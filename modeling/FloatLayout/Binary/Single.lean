import FloatLayout.Binary.Rounding

/-!
# Numbers stored in 32 bits

## Main definitions

- `Single`: a number as it is stored in a word of 32 bits.
- `Single.ofBits`: reads a stored number: a sign, eight digits of exponent and twenty-three of
  fraction.
-/

namespace FloatLayout

/-- A number of single precision. Both zeros are the same number. -/
inductive Single where
  | finite (value : Rat)
  | infinite (negative : Bool)
  | notANumber
deriving DecidableEq

/-- The number stored in a word. -/
def Single.ofBits (word : UInt32) : Single :=
  let negative := word.toNat.testBit 31
  let exponent := (word >>> 23 &&& 0xff).toNat
  let fraction := (word &&& 0x7fffff).toNat
  if exponent = 0xff then
    if fraction = 0 then infinite negative else notANumber
  else
    let magnitude : Rat :=
      if exponent = 0 then fraction * (2 : Rat) ^ (-149 : Int)
      else (0x800000 + fraction : Nat) * (2 : Rat) ^ ((exponent : Int) - 150)
    finite (if negative then -magnitude else magnitude)

end FloatLayout
