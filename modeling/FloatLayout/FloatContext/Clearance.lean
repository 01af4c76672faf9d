import FloatLayout.FloatContext.Basic

/-!
# Clearance

A box that clears floats moves down until it is past all floats of the cleared sides.

## Main definitions

- `FloatContext.clear`: the first position past the cleared floats.
- `FloatContext.clearContinues`: a cleared float continues after the break.
-/

namespace FloatLayout.FloatContext

/-- A float on a cleared side was pushed past the break or split across it. -/
def clearContinues (c : FloatContext) (side : ClearSide) : Bool :=
  (c.breaks.pushedLeft || c.breaks.splitLeft) && side.clearsLeft ||
    (c.breaks.pushedRight || c.breaks.splitRight) && side.clearsRight

/-- The block position of a box that would start at `position` and clears floats. It is the greatest
    length if a cleared float continues after the break, unless only the placed floats count. -/
def clear (c : FloatContext) (position : Length) (side : ClearSide) (placedOnly : Bool) : Length :=
  if !placedOnly && c.clearContinues side then .greatest
  else
    match c.floats.head? with
    | none => position
    | some last =>
      let start := position + c.offset.y
      let pastLeft := if side.clearsLeft then max start last.leftEnd else start
      let pastBoth := if side.clearsRight then max pastLeft last.rightEnd else pastLeft
      pastBoth - c.offset.y

end FloatLayout.FloatContext
