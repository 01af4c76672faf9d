import FloatLayout.FloatContext.Clearance
import FloatLayout.FloatContext.FlowArea
import FloatLayout.FloatContext.Operation

/-!
# Requests

What can be asked of a float context, as data, with what comes back. A sequence of requests keeps a
list of checkpoints and refers to them by number.

## Main definitions

- `Request`, `Reply`.
- `Request.run`: the context and the checkpoints after a request, and its reply.
- `Request.Session`, `Request.step`: a float context with its checkpoints, and a request to it.
-/

namespace FloatLayout

/-- Something asked of a float context. -/
inductive Request where
  /-- Change the context. -/
  | operate (operation : Operation)
  /-- Show the context. -/
  | inspect
  /-- Take a checkpoint. -/
  | checkpoint
  /-- Go back to a checkpoint. -/
  | rewind (checkpoint : Nat)
  /-- Make sure that nothing changed since a checkpoint. -/
  | expectUnchanged (checkpoint : Nat)
  | intersectsDamage (range : Band)
  | clear (position : Length) (side : ClearSide) (placedOnly : Bool)
  /-- Ask for a flow area, or for one at each of some block positions. The checkpoint of the
      question is given by number. -/
  | flow (query : FlowQuery) (checkpoint : Option Nat)
  | flows (query : FlowQuery) (checkpoint : Option Nat) (positions : List Length)
  /-- Ask for the bands below a block position. -/
  | bands (query : FlowQuery) (checkpoint : Option Nat) (position : Length) (limit : Nat)
  /-- List the floats as records or as text. -/
  | floats
  | text
  /-- Ask for the area of one float. -/
  | float (index : Nat) (area : FloatArea) (band : Band)

/-- What comes back from a request. -/
inductive Reply where
  | context (context : FloatContext)
  | checkpoint (index count : Nat)
  | unchanged
  | flag (holds : Bool)
  | clearance (continues : Bool) (position : Length)
  | area (area : FlowArea)
  | areas (areas : List FlowArea)
  | floats (floats : List PlacedFloat)
  | text (text : String)
  | float (left right : Except Fault Length) (blockStart blockEnd : Length) (isEmpty : Bool)

/-- The entry of a list with a number. -/
def entry {α : Type} (list : List α) (index : Nat) : Except Fault α :=
  match list[index]? with
  | some a => .ok a
  | none => .error (.noSuchIndex list.length index)

/-- A question with the checkpoint of a number. -/
def FlowQuery.since (q : FlowQuery) (checkpoints : List Checkpoint) :
    Option Nat → Except Fault FlowQuery
  | none => return { q with checkpoint := none }
  | some index => return { q with checkpoint := some (← entry checkpoints index) }

namespace Request

/-- The reply to a request that changes nothing. -/
def answer (c : FloatContext) (checkpoints : List Checkpoint) : Request → Except Fault Reply
  | operate _ | inspect | rewind _ => return .context c
  | checkpoint => return .checkpoint checkpoints.length c.floats.length
  | expectUnchanged index => do
    require (c.checkpoint = (← entry checkpoints index)) .checkpointChanged
    return .unchanged
  | intersectsDamage range => return .flag (c.intersectsDamage range)
  | clear position side placedOnly =>
    return .clearance (c.clearContinues side) (c.clear position side placedOnly)
  | flow q index => do return .area (← c.flowArea (← q.since checkpoints index))
  | flows q index positions => do
    let q ← q.since checkpoints index
    return .areas (← positions.mapM fun position => c.flowArea { q with blockStart := position })
  | bands q index position limit => do
    return .areas (← c.bands (← q.since checkpoints index) limit position)
  | floats => return .floats c.inOrder
  | text => return .text c.text
  | float index area band => do
    let f ← entry c.inOrder index
    return .float (f.edge area .left band) (f.edge area .right band) (f.blockStart area)
      (f.blockEnd area) (f.isEmpty area)

/-- The change that a request makes, if it makes one. -/
def operation? (checkpoints : List Checkpoint) : Request → Except Fault (Option Operation)
  | operate operation => return some operation
  | rewind index => return some (.rewind (← entry checkpoints index))
  | _ => return none

/-- The context and the checkpoints that a request leaves, and its reply. -/
def run (c : FloatContext) (checkpoints : List Checkpoint) (request : Request) :
    FloatContext × List Checkpoint × Except Fault Reply :=
  match request.operation? checkpoints with
  | .error fault => (c, checkpoints, .error fault)
  | .ok (some operation) =>
    let (next, outcome) := operation.apply c
    (next, checkpoints, outcome.map fun _ => .context next)
  | .ok none =>
    let after := match request with
      | checkpoint => checkpoints ++ [c.checkpoint]
      | _ => checkpoints
    (c, after, request.answer c checkpoints)

/-- A float context with the checkpoints taken of it. -/
structure Session where
  context : FloatContext
  checkpoints : List Checkpoint
deriving DecidableEq

/-- Runs a request, which may depend on the writing mode of the context, in a session. -/
def step (s : Session) (request : WritingMode → Request) : Session × Except Fault Reply :=
  let (context, checkpoints, reply) := (request s.context.mode).run s.context s.checkpoints
  (⟨context, checkpoints⟩, reply)

end Request

end FloatLayout
