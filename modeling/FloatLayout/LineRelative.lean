import FloatLayout.Logical.Basic

/-!
# Line-relative space

Floats are placed in line-relative space, where `x` runs from line-left to line-right and `y` from
block-start to block-end, so that left and right floats look the same in every base direction.

## Main definitions

- `LineRelative.rect`: a flow-relative rectangle in line-relative space.
- `LineRelative.point`: a physical point in line-relative space.
- `LineRelative.rectIn`: the same for a caller that works in a writing mode of its own.
-/

namespace FloatLayout.LineRelative

variable {α : Type} [Add α] [Sub α]

/-- A flow-relative rectangle in line-relative space. -/
def rect (r : Logical.Rect α) (container : Size α) : Rect α :=
  ⟨r.lineLeft container, r.blockStart, r.inlineSize, r.blockSize⟩

/-- A flow-relative rectangle, expected to be of `mode`, in line-relative space. -/
def rectIn (mode : WritingMode) (r : Logical.Rect α) (container : Size α) :
    Except Fault (Rect α) := Logical.within r.mode mode (rect r container)

/-- A physical point in line-relative space. -/
def point (mode : WritingMode) (p : Point α) (container : Size α) : Point α :=
  let q := Logical.Point.ofPhysical mode p container
  ⟨q.lineRelative container, q.block⟩

end FloatLayout.LineRelative
