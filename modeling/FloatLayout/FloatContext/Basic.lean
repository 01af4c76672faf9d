import FloatLayout.Damage
import FloatLayout.PlacedFloat

/-!
# Float contexts

The floats of one block formatting context, as far as layout has placed them.

## Main definitions

- `FloatContext`: the floats, the offset of the current containing block, the float damage and the
  marks for floats that continue after a break.
- `FloatContext.translate`, `FloatContext.add`, `FloatContext.removeTrailing`, `FloatContext.mark`,
  `FloatContext.addDamage`: what layout does to it.
- `FloatContext.checkpoint`, `FloatContext.rewind`: a point in time, and the way back to it.

## Design notes

The list of floats starts with the one placed last. A new float only looks at that one, a query
walks from it to earlier ones, and a checkpoint remembers no more than how many there were.
-/

namespace FloatLayout

/-- Marks for floats that do not end before the next break. -/
structure Breaks where
  /-- A left float was pushed past the break. -/
  pushedLeft : Bool := false
  /-- A right float was pushed past the break. -/
  pushedRight : Bool := false
  /-- A left float was split across the break. -/
  splitLeft : Bool := false
  /-- A right float was split across the break. -/
  splitRight : Bool := false
deriving DecidableEq, Inhabited

/-- The name of one of the marks. -/
inductive BreakMark where
  | pushedLeft
  | pushedRight
  | splitLeft
  | splitRight
deriving DecidableEq, Repr

/-- The marks with one more set. -/
def Breaks.set (b : Breaks) : BreakMark → Breaks
  | .pushedLeft => { b with pushedLeft := true }
  | .pushedRight => { b with pushedRight := true }
  | .splitLeft => { b with splitLeft := true }
  | .splitRight => { b with splitRight := true }

/-- The floats of a block formatting context. -/
structure FloatContext where
  mode : WritingMode
  /-- The offset of the current containing block, from line-left and from block-start. -/
  offset : Point Length
  /-- The floats, from the one placed last to the first. -/
  floats : List PlacedFloat
  damage : Damage
  breaks : Breaks
deriving DecidableEq

/-- What a float context was at some time, its damage apart. -/
structure Checkpoint where
  offset : Point Length
  breaks : Breaks
  /-- How many floats there were. -/
  count : Nat
deriving DecidableEq, Inhabited

namespace FloatContext

/-- The context without floats. -/
def new (mode : WritingMode) : FloatContext :=
  { mode, offset := ⟨0, 0⟩, floats := [], damage := .none, breaks := {} }

/-- Stops unless blocks and lines of `mode` advance in the directions of the context. -/
def expectDirections (c : FloatContext) (mode : WritingMode) : Except Fault Unit :=
  require (c.mode.SameDirections mode) .incompatibleMode

-- ════════════════════════════════════════════════════════════════════════
-- Changes
-- ════════════════════════════════════════════════════════════════════════

/-- Moves the origin of the current containing block. -/
def translate (c : FloatContext) (dx dy : Length) : FloatContext :=
  { c with offset := c.offset.shift dx dy }

/-- Places a float at its margin box. -/
def add (c : FloatContext) (box : FloatBox) (marginRect : Logical.Rect Length)
    (mode : WritingMode) (container : Size Length) : Except Fault FloatContext := do
  c.expectDirections mode
  require (0 ≤ marginRect.inlineSize) .negativeInlineSize
  require (0 ≤ marginRect.blockSize) .negativeBlockSize
  match box.float.side? mode with
  | none => .error .notFloating
  | some side =>
    let f ← PlacedFloat.place box side c.offset.x c.offset.y marginRect mode container
    return { c with floats := f.follow c.floats.head? :: c.floats }

/-- Removes the floats placed last, as long as they belong to the named boxes. -/
def removeTrailing (c : FloatContext) (ids : List Nat) : FloatContext :=
  { c with floats := c.floats.dropWhile (·.id ∈ ids) }

/-- No float belongs to one of the named boxes. -/
def HasNone (c : FloatContext) (ids : List Nat) : Prop := ∀ f ∈ c.floats, f.id ∉ ids

instance (c : FloatContext) (ids : List Nat) : Decidable (c.HasNone ids) :=
  inferInstanceAs (Decidable (∀ f ∈ c.floats, f.id ∉ ids))

/-- Marks that a float continues after the break. -/
def mark (c : FloatContext) (m : BreakMark) : FloatContext := { c with breaks := c.breaks.set m }

/-- A block range of the current containing block, in the coordinates of the context. -/
def bandOf (c : FloatContext) (range : Band) : Band :=
  ⟨range.start + c.offset.y, range.stop + c.offset.y⟩

/-- Adds a block range of the current containing block to the damage. -/
def addDamage (c : FloatContext) (range : Band) : Except Fault FloatContext :=
  return { c with damage := ← c.damage.add (c.bandOf range) }

/-- A block range of the current containing block overlaps the damage. -/
def intersectsDamage (c : FloatContext) (range : Band) : Bool := c.damage.intersects (c.bandOf range)

-- ════════════════════════════════════════════════════════════════════════
-- Checkpoints
-- ════════════════════════════════════════════════════════════════════════

/-- The present point in time. -/
def checkpoint (c : FloatContext) : Checkpoint := ⟨c.offset, c.breaks, c.floats.length⟩

/-- The floats that were there at a checkpoint, as far as they are still there. -/
def floatsAt (c : FloatContext) (p : Checkpoint) : List PlacedFloat :=
  c.floats.drop (c.floats.length - p.count)

/-- Goes back to a checkpoint. The damage stays. -/
def rewind (c : FloatContext) (p : Checkpoint) : FloatContext :=
  { c with offset := p.offset, breaks := p.breaks, floats := c.floatsAt p }

-- ════════════════════════════════════════════════════════════════════════
-- Views
-- ════════════════════════════════════════════════════════════════════════

/-- The block start of the float placed last, the greatest length if a float was pushed past the
    break, or the least one if there are no floats. -/
def lowestFloatTop (c : FloatContext) : Length :=
  if c.breaks.pushedLeft || c.breaks.pushedRight then .greatest
  else
    match c.floats.head? with
    | some last => last.blockStart .marginBox - c.offset.y
    | none => .least

/-- The floats in the order they were placed. -/
def inOrder (c : FloatContext) : List PlacedFloat := c.floats.reverse

/-- One line of text for each float, in the order they were placed. -/
def text (c : FloatContext) : String :=
  String.join (c.inOrder.zipIdx.map fun (f, index) => f.line index)

end FloatContext

end FloatLayout
