import FloatLayout.Fault
import FloatLayout.WritingMode

/-!
# Flow-relative geometry

Points, sizes, margins and rectangles measured along the inline and the block axis of a writing
mode, each from the start side of its container.

## Main definitions

- `Logical.Point`, `Logical.Size`, `Logical.Margin`, `Logical.Rect`, each with an `ofPhysical` that
  converts physical values.
- `Logical.Rect.toPhysical`: the way back.
- `Logical.Rect.lineLeft`, `Logical.Rect.lineRight`, `Logical.Point.lineRelative`: positions along
  a line from its line-left end, whatever the base direction.
- `Logical.Rect.grow`, `Logical.Rect.shrink`: a rectangle changed by a margin on every side.
- `text`: the printed form of each type.

## Design notes

A flow-relative number means nothing without its writing mode, so every value carries the mode it
was made in and computes in that mode alone. A caller who works in a mode of its own states it by
`expectMode`, which stops when the two differ.
-/

namespace FloatLayout.Logical

/-- Stops unless a value made in `own` may be used in `mode`. -/
def expectMode (own mode : WritingMode) : Except Fault Unit := require (own = mode) .modeMismatch

theorem expectMode_self (mode : WritingMode) : expectMode mode mode = .ok () := require_of rfl

/-- A value computed from one made in `own`, which may be used in `mode`. -/
def within {β : Type} (own mode : WritingMode) (value : β) : Except Fault β := do
  expectMode own mode
  return value

/-- A flow-relative size. -/
structure Size (α : Type) where
  mode : WritingMode
  inline : α
  block : α
deriving DecidableEq, Inhabited

/-- A flow-relative position. -/
structure Point (α : Type) where
  mode : WritingMode
  inline : α
  block : α
deriving DecidableEq, Inhabited

/-- Flow-relative amounts for the four sides of a box. -/
structure Margin (α : Type) where
  mode : WritingMode
  blockStart : α
  inlineEnd : α
  blockEnd : α
  inlineStart : α
deriving DecidableEq, Inhabited

/-- A flow-relative rectangle. -/
structure Rect (α : Type) where
  mode : WritingMode
  inlineStart : α
  blockStart : α
  inlineSize : α
  blockSize : α
deriving DecidableEq, Inhabited

variable {α : Type}

-- ════════════════════════════════════════════════════════════════════════
-- Sizes and points
-- ════════════════════════════════════════════════════════════════════════

/-- A physical size, seen in `mode`. -/
def Size.ofPhysical (mode : WritingMode) (size : FloatLayout.Size α) : Size α :=
  if mode.vertical then ⟨mode, size.height, size.width⟩ else ⟨mode, size.width, size.height⟩

/-- A physical point in a container, seen in `mode`. -/
def Point.ofPhysical [Sub α] (mode : WritingMode) (point : FloatLayout.Point α)
    (container : FloatLayout.Size α) : Point α where
  mode
  inline :=
    if mode.vertical then
      if mode.isInlineTb then point.y else container.height - point.y
    else if mode.isLtr then point.x else container.width - point.x
  block :=
    if mode.vertical then
      if mode.verticalLr then point.x else container.width - point.x
    else point.y

/-- The distance of a point from the line-left edge of its container. -/
def Point.lineRelative [Sub α] (p : Point α) (container : FloatLayout.Size α) : α :=
  if p.mode.isLtr then p.inline else p.mode.inlineSizeOf container - p.inline

-- ════════════════════════════════════════════════════════════════════════
-- Margins
-- ════════════════════════════════════════════════════════════════════════

/-- Physical side offsets, seen in `mode`. -/
def Margin.ofPhysical (mode : WritingMode) (sides : Sides α) : Margin α where
  mode
  blockStart :=
    if mode.vertical then
      if mode.verticalLr then sides.left else sides.right
    else sides.top
  blockEnd :=
    if mode.vertical then
      if mode.verticalLr then sides.right else sides.left
    else sides.bottom
  inlineStart :=
    if mode.vertical then
      if mode.isInlineTb then sides.top else sides.bottom
    else if mode.isLtr then sides.left else sides.right
  inlineEnd :=
    if mode.vertical then
      if mode.isInlineTb then sides.bottom else sides.top
    else if mode.isLtr then sides.right else sides.left

/-- The amounts of both inline sides together. -/
def Margin.inlineStartEnd [Add α] (m : Margin α) : α := m.inlineStart + m.inlineEnd

/-- The amounts of both block sides together. -/
def Margin.blockStartEnd [Add α] (m : Margin α) : α := m.blockStart + m.blockEnd

-- ════════════════════════════════════════════════════════════════════════
-- Rectangles
-- ════════════════════════════════════════════════════════════════════════

namespace Rect

/-- A physical rectangle in a container, seen in `mode`. -/
def ofPhysical [Add α] [Sub α] (mode : WritingMode) (rect : FloatLayout.Rect α)
    (container : FloatLayout.Size α) : Rect α where
  mode
  inlineStart :=
    if mode.vertical then
      if mode.isInlineTb then rect.y else container.height - rect.bottom
    else if mode.isLtr then rect.x else container.width - rect.right
  blockStart :=
    if mode.vertical then
      if mode.verticalLr then rect.x else container.width - rect.right
    else rect.y
  inlineSize := if mode.vertical then rect.height else rect.width
  blockSize := if mode.vertical then rect.width else rect.height

/-- The edge on the inline-end side. -/
def inlineEnd [Add α] (r : Rect α) : α := r.inlineStart + r.inlineSize

/-- The edge on the block-end side. -/
def blockEnd [Add α] (r : Rect α) : α := r.blockStart + r.blockSize

/-- The line-left edge, from the line-left edge of the container. -/
def lineLeft [Add α] [Sub α] (r : Rect α) (container : FloatLayout.Size α) : α :=
  if r.mode.isLtr then r.inlineStart else r.mode.inlineSizeOf container - r.inlineEnd

/-- The line-right edge, from the line-left edge of the container. -/
def lineRight [Add α] [Sub α] (r : Rect α) (container : FloatLayout.Size α) : α :=
  if r.mode.isLtr then r.inlineEnd else r.mode.inlineSizeOf container - r.inlineStart

/-- The physical rectangle in a container. -/
def toPhysical [Add α] [Sub α] (r : Rect α) (container : FloatLayout.Size α) :
    FloatLayout.Rect α where
  x :=
    if r.mode.vertical then
      if r.mode.verticalLr then r.blockStart else container.width - r.blockEnd
    else if r.mode.isLtr then r.inlineStart else container.width - r.inlineEnd
  y :=
    if r.mode.vertical then
      if r.mode.isInlineTb then r.inlineStart else container.height - r.inlineEnd
    else r.blockStart
  width := if r.mode.vertical then r.blockSize else r.inlineSize
  height := if r.mode.vertical then r.inlineSize else r.blockSize

/-- A rectangle with every side moved outwards by a margin. -/
def grow [Add α] [Sub α] (r : Rect α) (m : Margin α) : Rect α where
  mode := r.mode
  inlineStart := r.inlineStart - m.inlineStart
  blockStart := r.blockStart - m.blockStart
  inlineSize := r.inlineSize + m.inlineStartEnd
  blockSize := r.blockSize + m.blockStartEnd

/-- A rectangle with every side moved inwards by a margin. -/
def shrink [Add α] [Sub α] (r : Rect α) (m : Margin α) : Rect α where
  mode := r.mode
  inlineStart := r.inlineStart + m.inlineStart
  blockStart := r.blockStart + m.blockStart
  inlineSize := r.inlineSize - m.inlineStartEnd
  blockSize := r.blockSize - m.blockStartEnd

/-- Grows a rectangle in `mode`. -/
def inflate [Add α] [Sub α] (r : Rect α) (mode : WritingMode) (m : Margin α) :
    Except Fault (Rect α) := do
  expectMode r.mode mode
  expectMode r.mode m.mode
  return r.grow m

/-- Shrinks a rectangle in `mode`. -/
def deflate [Add α] [Sub α] (r : Rect α) (mode : WritingMode) (m : Margin α) :
    Except Fault (Rect α) := do
  expectMode r.mode mode
  expectMode r.mode m.mode
  return r.shrink m

end Rect

end FloatLayout.Logical
