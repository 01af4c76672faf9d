import FloatLayout.Physical

/-!
# Writing modes

A writing mode says along which physical axis, and in which direction, lines and blocks advance.

## Main definitions

- `WritingMode`: the six flags that describe a mode. `WritingMode.ofProperties` makes one from the
  `writing-mode` and `direction` properties; `WritingMode.ofBits` and `WritingMode.bits` give the
  packed form.
- `WritingMode.inlineStart`, `inlineEnd`, `blockStart`, `lineLeft`, `lineRight`: the physical sides
  of a mode.
- `WritingMode.SameDirections`: two modes that differ at most in the inline base direction.

## Design notes

All sixty-four combinations of the flags are values of the type, also those that no pair of
properties makes, because the packed form can hold them.
-/

namespace FloatLayout

/-- The `writing-mode` property. -/
inductive WritingModeProperty where
  | horizontalTb
  | verticalRl
  | verticalLr
  | sidewaysRl
  | sidewaysLr
deriving DecidableEq, Repr

/-- The `direction` property. -/
inductive Direction where
  | ltr
  | rtl
deriving DecidableEq, Repr

/-- A side of a box, clockwise from the top. -/
inductive PhysicalSide where
  | top
  | right
  | bottom
  | left
deriving DecidableEq, Repr

/-- The direction in which blocks are stacked. -/
inductive BlockFlow where
  | topToBottom
  | rightToLeft
  | leftToRight
deriving DecidableEq, Repr

/-- A writing mode. -/
structure WritingMode where
  /-- The inline base direction is right to left. -/
  rtl : Bool
  /-- Lines are vertical. -/
  vertical : Bool
  /-- Vertical lines are stacked from left to right. -/
  verticalLr : Bool
  /-- The over and under sides of a line are swapped against the block axis. -/
  lineInverted : Bool
  /-- Glyphs are set sideways. -/
  sideways : Bool
  /-- The inline axis of a left-to-right mode runs from bottom to top. -/
  inlineReversed : Bool
deriving DecidableEq, Repr, Inhabited

namespace WritingMode

-- ════════════════════════════════════════════════════════════════════════
-- Making modes
-- ════════════════════════════════════════════════════════════════════════

/-- Horizontal lines from left to right, stacked downwards. -/
def horizontalTb : WritingMode := ⟨false, false, false, false, false, false⟩

/-- The mode of a pair of properties. -/
def ofProperties (property : WritingModeProperty) (direction : Direction) : WritingMode :=
  let base := { horizontalTb with rtl := direction = .rtl }
  match property with
  | .horizontalTb => base
  | .verticalRl => { base with vertical := true }
  | .verticalLr => { base with vertical := true, verticalLr := true, lineInverted := true }
  | .sidewaysRl => { base with vertical := true, sideways := true }
  | .sidewaysLr =>
    { base with vertical := true, verticalLr := true, sideways := true, inlineReversed := true }

/-- The packed form of a mode, one bit for each flag. -/
def bits (m : WritingMode) : Nat :=
  m.rtl.toNat + 2 * m.vertical.toNat + 4 * m.verticalLr.toNat + 8 * m.lineInverted.toNat +
    16 * m.sideways.toNat + 32 * m.inlineReversed.toNat

/-- The mode of a packed form. -/
def ofBits (n : Nat) : WritingMode :=
  ⟨n.testBit 0, n.testBit 1, n.testBit 2, n.testBit 3, n.testBit 4, n.testBit 5⟩

/-- Packing a mode and unpacking it again gives the mode back. -/
theorem ofBits_bits (m : WritingMode) : ofBits m.bits = m := by
  rcases m with ⟨_ | _, _ | _, _ | _, _ | _, _ | _, _ | _⟩ <;> rfl

-- ════════════════════════════════════════════════════════════════════════
-- Directions
-- ════════════════════════════════════════════════════════════════════════

/-- Blocks are stacked from right to left. -/
def isVerticalRl (m : WritingMode) : Bool := m.vertical && !m.verticalLr

/-- The inline base direction is left to right. -/
def isLtr (m : WritingMode) : Bool := !m.rtl

/-- The inline axis of a vertical mode runs from top to bottom. -/
def isInlineTb (m : WritingMode) : Bool := m.rtl == m.inlineReversed

/-- The side on which a line starts. -/
def inlineStart (m : WritingMode) : PhysicalSide :=
  if m.vertical then
    if m.isInlineTb then .top else .bottom
  else if m.isLtr then .left else .right

/-- The side on which a line ends. -/
def inlineEnd (m : WritingMode) : PhysicalSide :=
  if m.vertical then
    if m.isInlineTb then .bottom else .top
  else if m.isLtr then .right else .left

/-- The side on which the first block stands. -/
def blockStart (m : WritingMode) : PhysicalSide :=
  if m.vertical then
    if m.verticalLr then .left else .right
  else .top

/-- The side on which left-to-right text starts. -/
def lineLeft (m : WritingMode) : PhysicalSide := if m.isLtr then m.inlineStart else m.inlineEnd

/-- The side on which left-to-right text ends. -/
def lineRight (m : WritingMode) : PhysicalSide := if m.isLtr then m.inlineEnd else m.inlineStart

/-- The direction in which blocks are stacked. -/
def blockFlow (m : WritingMode) : BlockFlow :=
  if m.vertical then
    if m.verticalLr then .leftToRight else .rightToLeft
  else .topToBottom

/-- Blocks and lines advance in the same directions in both modes. The inline base direction may
    differ. -/
def SameDirections (m n : WritingMode) : Prop :=
  m.blockFlow = n.blockFlow ∧ m.lineInverted = n.lineInverted

instance (m n : WritingMode) : Decidable (m.SameDirections n) :=
  inferInstanceAs (Decidable (_ ∧ _))

/-- The extent of a physical size along the inline axis. -/
def inlineSizeOf {α : Type} (m : WritingMode) (container : Size α) : α :=
  if m.vertical then container.height else container.width

-- ════════════════════════════════════════════════════════════════════════
-- Text
-- ════════════════════════════════════════════════════════════════════════

/-- The axis of a mode, then what is special about it, then its base direction. -/
def text (m : WritingMode) : String :=
  let axis :=
    if m.vertical then
      (if m.verticalLr then "V LR" else "V RL") ++
        (if m.sideways then " Sideways" else "") ++
        (if m.lineInverted then " Inverted" else "")
    else "H"
  axis ++ if m.isLtr then " LTR" else " RTL"

end WritingMode

end FloatLayout
