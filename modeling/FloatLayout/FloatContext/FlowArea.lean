import FloatLayout.FloatContext.Basic

/-!
# Flow areas

The part of a content area that floats leave to content, in a block range.

## Main definitions

- `FlowQuery`: a question for a flow area.
- `FlowArea`: the answer.
- `FloatContext.flowArea`: the answer to a question.
- `FloatContext.bands`: the bands that follow each other down a content area.

## Design notes

The floats are walked from the one placed last. Each record keeps the greatest block ends of the
floats up to it, so the walk stops at the first record that lies, with all before it, above the
range.
-/

namespace FloatLayout

/-- What a question for a flow area asks for. -/
inductive BandKind where
  /-- The band at the start of the range, as far as the same floats intersect it. -/
  | fromPoint
  /-- The space that all floats of the whole range leave. -/
  | withinHeight
deriving DecidableEq, Repr

/-- A question for a flow area. -/
structure FlowQuery where
  mode : WritingMode
  /-- The block start of the range, in the current containing block. -/
  blockStart : Length
  /-- The block size of the range. The greatest length leaves it open. -/
  blockSize : Length
  kind : BandKind
  area : FloatArea
  /-- The content area. Only its inline edges count. -/
  content : Logical.Rect Length
  /-- Floats placed after this point in time do not count. -/
  checkpoint : Option Checkpoint
  /-- The size of the containing block. -/
  container : Size Length
deriving DecidableEq

/-- The space that floats leave. -/
structure FlowArea where
  /-- The area, in the coordinates of the content area. -/
  rect : Logical.Rect Length
  /-- A float moved an edge of the area inwards. -/
  hasFloats : Bool
  /-- Floats of both sides overlap. The area then has no inline size. -/
  isNegative : Bool
deriving DecidableEq

/-- An area of the given, possibly negative, inline size. -/
def FlowArea.make (mode : WritingMode) (inlineStart blockStart inlineSize blockSize : Length)
    (hasFloats : Bool) : FlowArea where
  rect := ⟨mode, inlineStart, blockStart, max inlineSize 0, blockSize⟩
  hasFloats
  isNegative := inlineSize < 0

-- ════════════════════════════════════════════════════════════════════════
-- The walk over the floats
-- ════════════════════════════════════════════════════════════════════════

/-- The space that the floats seen so far leave, in the coordinates of the float context. -/
structure Clearing where
  /-- The block end of the range. -/
  blockEnd : Length
  /-- The line-left edge. -/
  left : Length
  /-- The line-right edge. -/
  right : Length
  /-- A float moved an edge inwards. -/
  hasFloats : Bool
deriving DecidableEq

namespace Clearing

/-- The space with the edge on a side moved inwards to `edge`, if it is not there yet. -/
def push (s : Clearing) (side : LineSide) (edge : Length) : Clearing :=
  match side with
  | .left => if s.left < edge then { s with left := edge, hasFloats := true } else s
  | .right => if edge < s.right then { s with right := edge, hasFloats := true } else s

/-- The space with the range cut off at `position`. -/
def cut (s : Clearing) (position : Length) : Clearing :=
  { s with blockEnd := min s.blockEnd position }

/-- The block range of a float, given by its ends, intersects the range from `start` on. A range
    without height intersects a float that starts there. -/
def Meets (s : Clearing) (start floatStart floatEnd : Length) : Prop :=
  start < floatEnd ∧
    (floatStart < s.blockEnd ∨ floatStart = s.blockEnd ∧ start = s.blockEnd)

instance (s : Clearing) (start floatStart floatEnd : Length) :
    Decidable (s.Meets start floatStart floatEnd) := inferInstanceAs (Decidable (_ ∧ _))

/-- The space that one more float leaves. A band ends where a float starts below it or where one
    that intersects it ends, and it looks at floats along its first line only. -/
def narrow (s : Clearing) (kind : BandKind) (area : FloatArea) (start : Length)
    (f : PlacedFloat) : Except Fault Clearing :=
  if f.isEmpty area then return s
  else if start < f.blockStart area ∧ kind = .fromPoint then return s.cut (f.blockStart area)
  else if s.Meets start (f.blockStart area) (f.blockEnd area) then
    match kind with
    | .fromPoint => do
      let edge ← f.edge area f.side.opposite ⟨start, start⟩
      return (s.push f.side edge).cut (f.blockEnd area)
    | .withinHeight => do
      let edge ← f.edge area f.side.opposite ⟨start, s.blockEnd⟩
      return s.push f.side edge
  else return s

/-- The space that the floats of a list leave, until one lies, with all after it, above `start`. -/
def walk (kind : BandKind) (area : FloatArea) (start : Length) :
    List PlacedFloat → Clearing → Except Fault Clearing
  | [], s => return s
  | f :: rest, s =>
    if f.AllAbove start then return s
    else do walk kind area start rest (← s.narrow kind area start f)

end Clearing

-- ════════════════════════════════════════════════════════════════════════
-- Questions and answers
-- ════════════════════════════════════════════════════════════════════════

namespace FloatContext

/-- The floats that count for a question. -/
def visible (c : FloatContext) (q : FlowQuery) : List PlacedFloat :=
  match q.checkpoint with
  | none => c.floats
  | some p => c.floatsAt p

/-- The block start of a question, in the coordinates of the context. -/
def startOf (c : FloatContext) (q : FlowQuery) : Length := q.blockStart + c.offset.y

/-- The whole content area of a question, in the coordinates of the context. -/
def clearingOf (c : FloatContext) (q : FlowQuery) : Clearing :=
  let left := c.offset.x + q.content.lineLeft q.container
  let right := c.offset.x + q.content.lineRight q.container
  { blockEnd := if q.blockSize = .greatest then .greatest else c.startOf q + q.blockSize
    left
    right := if right < left then left else right
    hasFloats := false }

/-- The answer that describes a space. -/
def answer (c : FloatContext) (q : FlowQuery) (s : Clearing) : FlowArea :=
  .make q.mode
    (if q.mode.isLtr then s.left - c.offset.x
      else c.offset.x - s.right + q.mode.inlineSizeOf q.container)
    (c.startOf q - c.offset.y) (s.right - s.left)
    (if s.blockEnd = .greatest then .greatest else s.blockEnd - c.startOf q) s.hasFloats

/-- The answer to a question. -/
def flowArea (c : FloatContext) (q : FlowQuery) : Except Fault FlowArea := do
  c.expectDirections q.mode
  require (0 ≤ q.blockSize) .negativeFlowBlockSize
  require (0 ≤ q.content.inlineSize) .negativeContentInlineSize
  require (∀ p ∈ q.checkpoint, p.count ≤ c.floats.length) .staleCheckpoint
  let floats := c.visible q
  if ∀ last ∈ floats.head?, last.AllAbove (c.startOf q) then
    return .make q.mode q.content.inlineStart q.blockStart q.content.inlineSize q.blockSize false
  else
    Logical.expectMode q.content.mode q.mode
    return c.answer q (← Clearing.walk q.kind q.area (c.startOf q) floats (c.clearingOf q))

/-- The bands that follow each other from a block position on, at most `limit` of them. The last
    one is open. -/
def bands (c : FloatContext) (q : FlowQuery) :
    (limit : Nat) → (position : Length) → Except Fault (List FlowArea)
  | 0, _ => return []
  | limit + 1, position => do
    let band ← c.flowArea
      { q with blockStart := position, blockSize := .greatest, kind := .fromPoint }
    if band.rect.blockSize = .greatest then return [band]
    else return band :: (← c.bands q limit band.rect.blockEnd)

end FloatContext

end FloatLayout
