import FloatLayout.Scope
import FloatLayout.Script.Request

/-!
# Scripts for layout

A script of layout with scopes nested to any depth. A step that fails ends the body it stands in;
its scope is left all the same, and what encloses the scope goes on.

## Main definitions

- `LayoutScript.Step`, `LayoutScript.Answer`.
- `LayoutScript.State`: layout within a scope, and the checkpoints of the script.
- `Step.run`, `LayoutScript.run`: what a step and a body leave, and their answers.
-/

namespace FloatLayout.LayoutScript

/-- A step of a script. -/
inductive Step where
  /-- Change the writing mode of layout. -/
  | setMode (mode : WritingMode)
  /-- Empty the slot. -/
  | take
  /-- Put a new float context in the slot. -/
  | install (mode : WritingMode)
  | shutDown
  /-- Show layout. -/
  | inspect
  /-- Send a request to the float context in the slot, whose writing mode it may depend on. -/
  | use (request : WritingMode → Request)
  /-- Fail. -/
  | abort (reason : String)
  /-- Run a body in a scope of its own. -/
  | scope (body : List Step)
  /-- Let the innermost scope make a float context. -/
  | create
  /-- Ask whether the innermost scope has made one. -/
  | hasCreated

/-- What comes back from a step. -/
inductive Answer where
  | layout (layout : LayoutState)
  | reply (reply : Reply)
  /-- The slot is empty. -/
  | noContext
  /-- The answers of a body, why it failed if it did, and what its scope left. -/
  | scope (answers : List Answer) (fault : Option Fault) (after : LayoutState)
  | created (created : Bool) (layout : LayoutState)
  | flag (holds : Bool)

/-- What a script holds. -/
structure State where
  scope : Scope
  checkpoints : List Checkpoint
deriving DecidableEq

namespace State

/-- The start of a script with a pool of its own. -/
def new (mode : WritingMode) (cacheSize : Nat) : Except Fault State :=
  return ⟨.enter (.new mode (← Pool.new cacheSize)), []⟩

/-- Layout as it is now. -/
def layout (s : State) : LayoutState := s.scope.layout

/-- The script with another layout. -/
def setLayout (s : State) (layout : LayoutState) : State :=
  { s with scope := { s.scope with layout } }

/-- The start of a scope within the present one. -/
def nested (s : State) : State := { s with scope := .enter s.layout }

/-- Sends a request to the float context in the slot. -/
def use (s : State) (request : WritingMode → Request) : State × Except Fault Answer :=
  match s.layout.slot with
  | none => (s, .ok .noContext)
  | some held =>
    let (context, checkpoints, reply) :=
      (request held.context.mode).run held.context s.checkpoints
    let next := s.setLayout { s.layout with slot := some { held with context } }
    ({ next with checkpoints }, reply.map .reply)

end State

/-- A change of layout that cannot fail, with its answer. -/
def change (s : State) (layout : LayoutState) : State × Except Fault Answer :=
  (s.setLayout layout, .ok (.layout layout))

mutual

/-- What a step leaves, and its answer. -/
def Step.run (s : State) : Step → State × Except Fault Answer
  | .setMode mode => change s { s.layout with mode }
  | .take => change s { s.layout with slot := none }
  | .install mode => change s (s.layout.install mode)
  | .shutDown => change s { s.layout with pool := s.layout.pool.shutDown }
  | .inspect => (s, .ok (.layout s.layout))
  | .use request => s.use request
  | .abort reason => (s, .error (.aborted reason))
  | .scope body =>
    let (answers, last, fault) := run s.nested body
    let after := last.scope.leave
    ({ s.setLayout after with checkpoints := last.checkpoints },
      .ok (.scope answers fault after))
  | .create =>
    match s.scope.create with
    | .error fault => (s, .error fault)
    | .ok scope => ({ s with scope }, .ok (.created scope.hasCreated scope.layout))
  | .hasCreated => (s, .ok (.flag s.scope.hasCreated))

/-- The answers to the steps of a body, up to the first that fails, with the state they leave. -/
def run (s : State) : List Step → List Answer × State × Option Fault
  | [] => ([], s, none)
  | step :: rest =>
    match step.run s with
    | (next, .error fault) => ([], next, some fault)
    | (next, .ok answer) =>
      let (answers, last, fault) := run next rest
      (answer :: answers, last, fault)

end

end FloatLayout.LayoutScript
