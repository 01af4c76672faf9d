import FloatLayout.FloatContext.Basic
import FloatLayout.Word

/-!
# Pools of float contexts

Every nested block formatting context needs a float context of its own for a short time. A pool
keeps a few that were given back and hands them out again.

## Main definitions

- `Held`: a float context with the serial number under which it was made.
- `Pool`: the contexts at rest. `Pool.new` reserves the room for them.
- `Pool.acquire`, `Pool.release`, `Pool.shutDown`.

## Design notes

A float context is a value, so two of them may be equal. The serial number tells them apart, and
says which of them is where.
-/

namespace FloatLayout

/-- A float context that somebody holds. -/
structure Held where
  /-- No two contexts have the same number. -/
  serial : Nat
  context : FloatContext
deriving DecidableEq

/-- The state of a new context in place of that of `c`. -/
def FloatContext.reset (c : FloatContext) (mode : WritingMode) : FloatContext :=
  { c with mode, offset := ⟨0, 0⟩, floats := [], damage := .none, breaks := {} }

/-- A cache of float contexts. -/
structure Pool where
  /-- The most contexts kept at rest. -/
  cacheSize : Nat
  /-- The contexts at rest, from the one given back last on. -/
  cache : List Held
  /-- Nothing is kept at rest any more. -/
  isShutDown : Bool
  /-- The number of the next context that is made. -/
  nextSerial : Nat
deriving DecidableEq

namespace Pool

/-- The cache size of a pool for which none is given. -/
def defaultCacheSize : Nat := 4

/-- A pool without contexts. -/
def empty (cacheSize : Nat) : Pool := ⟨cacheSize, [], false, 0⟩

/-- A pool without contexts, which reserves a word of eight bytes for each that it may keep. -/
def new (cacheSize : Nat) : Except Fault Pool := do
  reserve cacheSize 8
  return empty cacheSize

/-- A context that did not exist before. -/
def make (p : Pool) (mode : WritingMode) : Held × Pool :=
  (⟨p.nextSerial, .new mode⟩, { p with nextSerial := p.nextSerial + 1 })

/-- A context without floats: the one given back last, or a new one if none is at rest. -/
def acquire (p : Pool) (mode : WritingMode) : Held × Pool :=
  match p.cache with
  | held :: rest => ({ held with context := held.context.reset mode }, { p with cache := rest })
  | [] => p.make mode

/-- Takes a context back. It is dropped if the cache is full or the pool is shut down. -/
def release (p : Pool) (held : Held) : Pool :=
  if p.isShutDown then p
  else if p.cache.length < p.cacheSize then { p with cache := held :: p.cache }
  else p

/-- Drops the contexts at rest and keeps none from now on. -/
def shutDown (p : Pool) : Pool := { p with cache := [], isShutDown := true }

end Pool

end FloatLayout
