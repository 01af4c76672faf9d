import FloatLayout.Pool

/-!
# Layout scopes

Layout keeps the float context of the block formatting context it is in. A scope puts a fresh one in
its place for the time of a nested block formatting context, and brings the outer one back when it
ends, however it ends.

## Main definitions

- `LayoutState`: what layout holds: its writing mode, a float context and a pool.
- `Scope`: a layout state with what a scope has put aside.
- `Scope.enter`, `Scope.create`, `Scope.leave`.
-/

namespace FloatLayout

/-- What layout holds. -/
structure LayoutState where
  mode : WritingMode
  /-- The float context of the present block formatting context. -/
  slot : Option Held
  pool : Pool
deriving DecidableEq

namespace LayoutState

/-- Layout without a float context. -/
def new (mode : WritingMode) (pool : Pool) : LayoutState := ⟨mode, none, pool⟩

/-- Puts a new float context in the slot. -/
def install (s : LayoutState) (mode : WritingMode) : LayoutState :=
  let (held, pool) := s.pool.make mode
  { s with slot := some held, pool }

end LayoutState

/-- Layout within a scope. -/
structure Scope where
  layout : LayoutState
  /-- What was in the slot when the scope made its own float context, once it has. -/
  outer : Option (Option Held)
deriving DecidableEq

namespace Scope

/-- A scope that has changed nothing yet. -/
def enter (layout : LayoutState) : Scope := ⟨layout, none⟩

/-- The scope has made a float context. -/
def hasCreated (s : Scope) : Bool := s.outer.isSome

/-- Puts a float context from the pool in the slot, in the writing mode of layout. -/
def create (s : Scope) : Except Fault Scope :=
  if s.hasCreated then .error .alreadyCreated
  else
    let (held, pool) := s.layout.pool.acquire s.layout.mode
    .ok ⟨{ s.layout with slot := some held, pool }, some s.layout.slot⟩

/-- Ends the scope. If it made a float context, the slot holds again what it held before, and what
    is in the slot goes to the pool. -/
def leave (s : Scope) : LayoutState :=
  match s.outer with
  | none => s.layout
  | some outer =>
    let pool := match s.layout.slot with
      | some nested => s.layout.pool.release nested
      | none => s.layout.pool
    { s.layout with slot := outer, pool }

end Scope

end FloatLayout
