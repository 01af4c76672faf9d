/-!
# Faults

Placing floats and asking for the space between them has preconditions. A call that breaks one is
a mistake of the caller, and it stops with a `Fault` that names the broken precondition.

## Main definitions

- `Fault`: what a call found wrong.
- `Fault.message`: the text reported for a fault, which is a single line.
- `firstLine`: the first line of a text.
- `require`: stops with a fault unless a condition holds.
-/

namespace FloatLayout

/-- An operation on machine words. -/
inductive WordOperation where
  | add
  | multiply
deriving DecidableEq, Repr

/-- A precondition that a caller broke. -/
inductive Fault where
  /-- A flow-relative value was used in a writing mode other than its own. -/
  | modeMismatch
  /-- The writing mode of a call has another block or line direction than the float context. -/
  | incompatibleMode
  /-- The result of an operation does not fit its machine word. -/
  | overflow (operation : WordOperation)
  /-- Insets leave a box with a negative width. -/
  | negativeInnerWidth
  /-- Insets leave a box with a negative height. -/
  | negativeInnerHeight
  /-- A corner arc was asked for in a box that ends before it starts. -/
  | invertedBox
  /-- A corner arc was asked for in a band that ends before it starts. -/
  | invertedArcBand
  /-- A corner arc has no height. -/
  | flatCorner
  /-- An edge was asked for in a band that ends before it starts. -/
  | invertedBand
  /-- A polygon that encloses no area has no edges to ask for. -/
  | emptyPolygon
  /-- A line does not meet the segment it is to be cut with. -/
  | outsideSegment
  /-- A horizontal segment has no single crossing. -/
  | horizontalSegment
  /-- The alpha threshold of a shape image is not between zero and one. -/
  | thresholdOutOfRange
  /-- A damaged range ends before it starts. -/
  | invertedDamage
  /-- A float with a negative inline size. -/
  | negativeInlineSize
  /-- A float with a negative block size. -/
  | negativeBlockSize
  /-- A box that does not float was added as a float. -/
  | notFloating
  /-- A flow area of negative block size was asked for. -/
  | negativeFlowBlockSize
  /-- A flow area was asked for in a content area of negative inline size. -/
  | negativeContentInlineSize
  /-- A query named a checkpoint that holds more floats than there are. -/
  | staleCheckpoint
  /-- A checkpoint was restored after some of its floats were removed. -/
  | lostCheckpoint
  /-- The float context changed since a checkpoint was taken. -/
  | checkpointChanged
  /-- A float to be removed stands before one that stays. -/
  | notTrailing
  /-- A scope already has a float context of its own. -/
  | alreadyCreated
  /-- A list has no entry of this index. -/
  | noSuchIndex (length index : Nat)
  /-- There is no room to reserve for as many entries as were asked for. -/
  | tooMuchRoom
  /-- Layout itself gave up. -/
  | aborted (reason : String)
deriving DecidableEq, Repr

/-- The first line of a text. A line ends at a line feed, which may have a carriage return before it.
    A carriage return alone ends nothing. -/
def firstLine : List Char → List Char
  | [] => []
  | '\n' :: _ => []
  | '\r' :: '\n' :: _ => []
  | c :: rest => c :: firstLine rest

namespace Fault

/-- The text reported for a fault. Of a reason with several lines it is the first. -/
def message : Fault → String
  | modeMismatch => "assertion `left == right` failed"
  | incompatibleMode => "incompatible writing modes"
  | overflow .add => "attempt to add with overflow"
  | overflow .multiply => "attempt to multiply with overflow"
  | negativeInnerWidth => "assertion failed: rect.size.width >= Zero::zero()"
  | negativeInnerHeight => "assertion failed: rect.size.height >= Zero::zero()"
  | invertedBox => "bad shape box coordinates"
  | invertedArcBand => "bad band coordinates"
  | flatCorner => "assertion failed: radius_y > Au(0)"
  | invertedBand => "band block start is after its block end"
  | emptyPolygon => "polygon encloses no area"
  | outsideSegment => "assertion failed: p1.y <= y && y <= p2.y"
  | horizontalSegment => "assertion failed: p1.y != p2.y"
  | thresholdOutOfRange => "shape-image-threshold out of range"
  | invertedDamage => "inverted damage interval"
  | negativeInlineSize => "negative inline size"
  | negativeBlockSize => "negative block size"
  | notFloating => "adding a box that does not float"
  | negativeFlowBlockSize => "unexpected max block size"
  | negativeContentInlineSize => "unexpected content area inline size"
  | staleCheckpoint => "bad state"
  | lostCheckpoint => "somebody misused push_state/pop_state"
  | checkpointChanged =>
    "assertion `left == right` failed: float manager state should match saved state"
  | notTrailing => "float region deletion was requested but could not be done"
  | alreadyCreated => "float manager already created"
  | noSuchIndex length index =>
    s!"index out of bounds: the len is {length} but the index is {index}"
  | tooMuchRoom => "capacity overflow"
  | aborted reason => String.ofList (firstLine reason.toList)

end Fault

/-- Stops with `fault` unless `condition` holds. -/
def require (condition : Prop) [Decidable condition] (fault : Fault) : Except Fault Unit :=
  if condition then .ok () else .error fault

theorem require_of {condition : Prop} [Decidable condition] {fault : Fault} (h : condition) :
    require condition fault = .ok () := if_pos h

theorem require_of_not {condition : Prop} [Decidable condition] {fault : Fault}
    (h : ¬condition) : require condition fault = .error fault := if_neg h

end FloatLayout
