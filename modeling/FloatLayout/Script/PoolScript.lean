import FloatLayout.Pool
import FloatLayout.Script.Request

/-!
# Scripts for pools

A script acquires float contexts from a pool, works with them and gives them back. It refers to what
it acquired by handles, which count up from zero.

## Main definitions

- `PoolScript.Step`, `PoolScript.Answer`.
- `PoolScript.State`: the pool and what was acquired from it.
- `Step.run`: what a step leaves, and its answer.
-/

namespace FloatLayout.PoolScript

/-- A step of a script. -/
inductive Step where
  | acquire (mode : WritingMode)
  | release (handle : Nat)
  | shutDown
  /-- Send a request, which may depend on the writing mode of the context it is sent to. -/
  | use (handle : Nat) (request : WritingMode → Request)

/-- What comes back from a step. -/
inductive Answer where
  | acquired (handle : Nat) (context : FloatContext) (pool : Pool)
  | pool (pool : Pool)
  | reply (reply : Reply)
  /-- The handle was given back. -/
  | noContext

/-- What a script holds. -/
structure State where
  pool : Pool
  /-- What each handle stands for, until it is given back. -/
  handles : List (Option Held)
  checkpoints : List Checkpoint
deriving DecidableEq

/-- The start of a script with a pool of its own. -/
def State.new (cacheSize : Nat) : Except Fault State := return ⟨← Pool.new cacheSize, [], []⟩

/-- The context of a handle, if it is still held. -/
def State.held? (s : State) (handle : Nat) : Option Held := (s.handles[handle]?).join

/-- What a step leaves, and its answer. -/
def Step.run (s : State) : Step → State × Except Fault Answer
  | acquire mode =>
    let (held, pool) := s.pool.acquire mode
    ({ s with pool, handles := s.handles ++ [some held] },
      .ok (.acquired s.handles.length held.context pool))
  | release handle =>
    match s.held? handle with
    | none => (s, .ok (.pool s.pool))
    | some held =>
      let pool := s.pool.release held
      ({ s with pool, handles := s.handles.set handle none }, .ok (.pool pool))
  | shutDown =>
    let pool := s.pool.shutDown
    ({ s with pool }, .ok (.pool pool))
  | use handle request =>
    match s.held? handle with
    | none => (s, .ok .noContext)
    | some held =>
      let (context, checkpoints, reply) :=
        (request held.context.mode).run held.context s.checkpoints
      let handles := s.handles.set handle (some { held with context })
      ({ s with handles, checkpoints }, reply.map .reply)

end FloatLayout.PoolScript
