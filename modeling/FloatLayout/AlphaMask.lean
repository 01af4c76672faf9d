import FloatLayout.Physical
import FloatLayout.Word

/-!
# Alpha masks

An alpha mask holds the opacity of every pixel of a rendered shape image, row by row. Rows may be
padded: the stride is the number of bytes from the start of one row to that of the next.

## Main definitions

- `MaskLayout`: the number of bytes, the stride and the size in pixels.
- `MaskLayout.WellFormed`: the bytes cover the size.
- `AlphaMask`: a layout with the bytes themselves.
- `AlphaMask.offset`: where the opacity of a pixel is stored.
-/

namespace FloatLayout

/-- Where the pixels of an image are stored. -/
structure MaskLayout where
  /-- The number of bytes. -/
  length : Nat
  /-- The number of bytes from one row to the next. -/
  stride : Nat
  /-- The size in pixels. -/
  size : Size Int
deriving DecidableEq

namespace MaskLayout

/-- The layout of a mask of `length` bytes, for which there must be room. -/
def allocate (length stride : Nat) (size : Size Int) : Except Fault MaskLayout := do
  reserve length 1
  return ⟨length, stride, size⟩

/-- The size is not negative, a row holds its pixels, and the bytes hold all rows, counted in a
    word of 64 bits. -/
def WellFormed (m : MaskLayout) : Prop :=
  0 ≤ m.size.width ∧ 0 ≤ m.size.height ∧ m.stride * m.size.height.toNat < UInt64.size ∧
    m.size.width ≤ m.stride ∧ m.stride * m.size.height.toNat ≤ m.length

instance (m : MaskLayout) : Decidable m.WellFormed := inferInstanceAs (Decidable (_ ∧ _))

end MaskLayout

/-- The opacities of the pixels of an image. -/
structure AlphaMask where
  data : Array UInt8
  /-- The number of bytes from one row to the next. -/
  stride : Nat
  /-- The size in pixels. -/
  size : Size Int
deriving DecidableEq

namespace AlphaMask

/-- Where the pixels are stored. -/
def layout (m : AlphaMask) : MaskLayout := ⟨m.data.size, m.stride, m.size⟩

/-- Where the opacity of a pixel is stored. -/
def offset (m : AlphaMask) (column row : Nat) : Nat := column + row * m.stride

end AlphaMask

end FloatLayout
