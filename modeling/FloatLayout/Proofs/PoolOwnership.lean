import FloatLayout.Proofs.Watermarks
import FloatLayout.Script.PoolScript
import Mathlib.Data.List.Perm.Subperm

/-!
# Ownership of pooled contexts

A context that was handed out belongs to whoever acquired it until it is given back, and a context
at rest belongs to the pool. Nobody else has it, however often it changed hands before, and it is as
good as new each time that it is handed out.

## Main definitions

- `Pool.Owns`: the contexts at rest and those of a list of owners are all different ones.
- `PoolScript.lent`: the contexts that the handles of a script stand for.
- `PoolScript.after`: the pool and its handles after a run of steps.
- `PoolScript.owns_after`: what every run keeps.
- `PoolScript.owners_apart`: what a caller of the pool may rely on after every run.

## Design notes

Owners are listed by the serial numbers of their contexts. Giving a context up is leaving it out of
the list, in whatever order the list stands, so that a smaller list of owners is one that is
contained in the other up to its order.
-/

namespace FloatLayout

namespace Pool

variable {p : Pool} {owners owners' : List Nat}

/-- The serial numbers of the contexts at rest. -/
def atRest (p : Pool) : List Nat := p.cache.map Held.serial

/-- The contexts at rest and those of the owners are all different ones, and none of them has a
    number that is still to come. There are no more at rest than may be kept, and none once the pool
    is shut down. -/
structure Owns (p : Pool) (owners : List Nat) : Prop where
  nodup : (p.atRest ++ owners).Nodup
  lt_nextSerial : ∀ serial ∈ p.atRest ++ owners, serial < p.nextSerial
  length_le : p.cache.length ≤ p.cacheSize
  cache_eq_nil : p.isShutDown = true → p.cache = []

theorem new_eq_ok {cacheSize : Nat} (h : Pool.new cacheSize = .ok p) : p = .empty cacheSize := by
  obtain ⟨-, -, hempty⟩ := bind_eq_ok_iff.1 h
  cases hempty
  rfl

namespace Owns

theorem empty (cacheSize : Nat) : (Pool.empty cacheSize).Owns [] where
  nodup := List.nodup_nil
  lt_nextSerial := List.forall_mem_nil _
  length_le := Nat.zero_le _
  cache_eq_nil := nofun

/-- Owners may give contexts up for good. -/
theorem subperm (h : p.Owns owners) (hsub : owners'.Subperm owners) : p.Owns owners' where
  nodup := by
    obtain ⟨l, hperm, hl⟩ := (List.subperm_append_left p.atRest).2 hsub
    exact hperm.nodup_iff.1 (h.nodup.sublist hl)
  lt_nextSerial serial hserial :=
    h.lt_nextSerial serial (((List.subperm_append_left p.atRest).2 hsub).subset hserial)
  length_le := h.length_le
  cache_eq_nil := h.cache_eq_nil

theorem perm (h : p.Owns owners) (hperm : owners'.Perm owners) : p.Owns owners' :=
  h.subperm hperm.subperm

theorem make (h : p.Owns owners) (mode : WritingMode) :
    (p.make mode).2.Owns ((p.make mode).1.serial :: owners) where
  nodup := by
    refine List.perm_middle.nodup_iff.2 (List.nodup_cons.2 ⟨fun hmem => ?_, h.nodup⟩)
    exact Nat.lt_irrefl _ (h.lt_nextSerial _ hmem)
  lt_nextSerial serial hserial := by
    rcases List.mem_cons.1 (List.perm_middle.subset hserial) with rfl | hserial
    · exact Nat.lt_succ_self _
    · exact Nat.lt_succ_of_lt (h.lt_nextSerial serial hserial)
  length_le := h.length_le
  cache_eq_nil := h.cache_eq_nil

/-- Whoever acquires a context owns one that belonged to nobody else. -/
theorem acquire (h : p.Owns owners) (mode : WritingMode) :
    (p.acquire mode).2.Owns ((p.acquire mode).1.serial :: owners) := by
  rcases hcache : p.cache with _ | ⟨held, rest⟩
  · simpa only [Pool.acquire, hcache] using h.make mode
  · obtain ⟨hnodup, hlt, hlength, hshut⟩ := h
    simp only [atRest, hcache] at hnodup hlt hlength hshut
    simp only [Pool.acquire, hcache]
    exact {
      nodup := List.perm_middle.nodup_iff.2 hnodup
      lt_nextSerial := fun serial hserial => hlt serial (List.perm_middle.subset hserial)
      length_le := Nat.le_of_succ_le hlength
      cache_eq_nil := fun hdown => absurd (hshut hdown) (List.cons_ne_nil _ _) }

/-- What an owner gives back is at rest or dropped. -/
theorem release (held : Held) (h : p.Owns (held.serial :: owners)) :
    (p.release held).Owns owners := by
  have hdrop : p.Owns owners := h.subperm (List.sublist_cons_self _ _).subperm
  unfold Pool.release
  split
  · exact hdrop
  split
  · next hup hroom =>
    exact {
      nodup := List.perm_middle.nodup_iff.1 h.nodup
      lt_nextSerial := fun serial hserial =>
        h.lt_nextSerial serial (List.perm_middle.symm.subset hserial)
      length_le := hroom
      cache_eq_nil := fun hdown => absurd hdown hup }
  · exact hdrop

theorem shutDown (h : p.Owns owners) : p.shutDown.Owns owners where
  nodup := (List.nodup_append.1 h.nodup).2.1
  lt_nextSerial serial hserial := h.lt_nextSerial serial (List.mem_append_right _ hserial)
  length_le := Nat.zero_le _
  cache_eq_nil _ := rfl

end Owns

end Pool

namespace PoolScript

variable {s : State} {steps : List Step} {cacheSize : Nat}

/-- The serial numbers of the contexts that handles stand for. -/
def lent (handles : List (Option Held)) : List Nat :=
  handles.filterMap fun entry => entry.map Held.serial

/-- What a script holds after a run of steps. A step that fails leaves what it leaves, and the run
    goes on. -/
def after (s : State) (steps : List Step) : State := steps.foldl (fun s step => (step.run s).1) s

-- ════════════════════════════════════════════════════════════════════════
-- A single step
-- ════════════════════════════════════════════════════════════════════════

/-- A handle stands for a context that is lent, and all else stays lent when another entry takes its
    place. -/
theorem State.exists_lent_eq {handle : Nat} {held : Held} (h : s.held? handle = some held)
    (entry : Option Held) :
    ∃ earlier later, lent s.handles = earlier ++ held.serial :: later ∧
      lent (s.handles.set handle entry) = earlier ++ (lent [entry] ++ later) := by
  obtain ⟨hlt, hheld⟩ := List.getElem?_eq_some_iff.1 (Option.join_eq_some_iff.1 h)
  obtain ⟨earlier, later, hsplit, -, hset⟩ :
      ∃ earlier later, s.handles = earlier ++ s.handles[handle] :: later ∧
        earlier.length = handle ∧ s.handles.set handle entry = earlier ++ entry :: later :=
    List.exists_of_set hlt
  rw [hheld] at hsplit
  refine ⟨lent earlier, lent later, ?_, ?_⟩
  · rw [hsplit, lent, List.filterMap_append]
    rfl
  · rw [hset, ← List.singleton_append, lent, List.filterMap_append, List.filterMap_append]
    rfl

/-- No step makes two owners of one context. -/
theorem Step.run_owns (h : s.pool.Owns (lent s.handles)) (step : Step) :
    (step.run s).1.pool.Owns (lent (step.run s).1.handles) := by
  cases step with
  | acquire mode =>
    have hlent : lent ((acquire mode).run s).1.handles =
        lent s.handles ++ [(s.pool.acquire mode).1.serial] := List.filterMap_append
    rw [hlent]
    exact (h.acquire mode).perm (List.perm_append_singleton _ _)
  | release handle =>
    cases hheld : s.held? handle with
    | none => simpa only [run, hheld] using h
    | some held =>
      obtain ⟨earlier, later, hlent, hset⟩ := State.exists_lent_eq hheld none
      rw [hlent] at h
      simp only [run, hheld, hset]
      exact Pool.Owns.release held (h.perm List.perm_middle.symm)
  | shutDown => exact h.shutDown
  | use handle request =>
    cases hheld : s.held? handle with
    | none => simpa only [run, hheld] using h
    | some held =>
      let context := ((request held.context.mode).run held.context s.checkpoints).1
      obtain ⟨earlier, later, hlent, hset⟩ :=
        State.exists_lent_eq hheld (some { held with context })
      rw [hlent] at h
      simp only [run, hheld]
      exact hset ▸ h

theorem Step.run_cacheSize (s : State) (step : Step) :
    (step.run s).1.pool.cacheSize = s.pool.cacheSize := by
  cases step with
  | acquire mode =>
    simp only [run, Pool.acquire]
    split <;> rfl
  | release handle =>
    simp only [run]
    split
    · rfl
    · simp only [Pool.release]
      split
      · rfl
      · split <;> rfl
  | shutDown => rfl
  | use handle request =>
    simp only [run]
    split <;> rfl

theorem Step.isShutDown_run (step : Step) (h : s.pool.isShutDown = true) :
    (step.run s).1.pool.isShutDown = true := by
  cases step with
  | acquire mode =>
    simp only [run, Pool.acquire]
    split <;> exact h
  | release handle =>
    simp only [run]
    split
    · exact h
    · rw [Pool.release, if_pos h]
      exact h
  | shutDown => rfl
  | use handle request =>
    simp only [run]
    split <;> exact h

-- ════════════════════════════════════════════════════════════════════════
-- Runs
-- ════════════════════════════════════════════════════════════════════════

theorem State.new_eq_ok (h : State.new cacheSize = .ok s) : s = ⟨.empty cacheSize, [], []⟩ := by
  obtain ⟨pool, hpool, hs⟩ := bind_eq_ok_iff.1 h
  cases Pool.new_eq_ok hpool
  cases hs
  rfl

theorem owns_after (h : s.pool.Owns (lent s.handles)) (steps : List Step) :
    (after s steps).pool.Owns (lent (after s steps).handles) := by
  induction steps generalizing s with
  | nil => exact h
  | cons step rest ih => exact ih (step.run_owns h)

theorem after_cacheSize (s : State) (steps : List Step) :
    (after s steps).pool.cacheSize = s.pool.cacheSize := by
  induction steps generalizing s with
  | nil => rfl
  | cons step rest ih => exact (ih _).trans (step.run_cacheSize s)

theorem isShutDown_after (h : s.pool.isShutDown = true ∨ .shutDown ∈ steps) :
    (after s steps).pool.isShutDown = true := by
  induction steps generalizing s with
  | nil => exact h.resolve_right List.not_mem_nil
  | cons step rest ih =>
    apply ih
    rcases h with hdown | hmem
    · exact .inl (step.isShutDown_run hdown)
    · rcases List.mem_cons.1 hmem with rfl | hmem
      · exact .inl rfl
      · exact .inr hmem

/-- Whatever was done with the contexts of a pool, and in whatever order they were given back, a
    context is handed out with nothing in it that a new one has not, each context has one owner, and
    the pool keeps no more at rest than it may, and none from the time on when it was shut down. -/
theorem owners_apart (hnew : State.new cacheSize = .ok s) (steps : List Step) :
    let d := after s steps
    (∀ mode, ∃ serial pool, (Step.acquire mode).run d =
        ({ d with pool, handles := d.handles ++ [some ⟨serial, .new mode⟩] },
          .ok (.acquired d.handles.length (.new mode) pool))) ∧
      (d.pool.atRest ++ lent d.handles).Nodup ∧
      d.pool.cache.length ≤ cacheSize ∧
      (.shutDown ∈ steps → d.pool.cache.length = 0) := by
  intro d
  cases State.new_eq_ok hnew
  have howns : d.pool.Owns (lent d.handles) := owns_after (.empty cacheSize) steps
  have hsize : d.pool.cacheSize = cacheSize := after_cacheSize _ steps
  refine ⟨fun mode => ?_, howns.nodup, hsize ▸ howns.length_le, fun hmem => ?_⟩
  · have hcontext := d.pool.acquire_context mode
    refine ⟨(d.pool.acquire mode).1.serial, (d.pool.acquire mode).2, ?_⟩
    rw [← hcontext]
    rfl
  · rw [howns.cache_eq_nil (isShutDown_after (.inr hmem)), List.length_nil]

/-- A run in which two contexts are acquired and changed, and given back to a pool that keeps
    one. -/
def recycling : List Step :=
  let place (mode : WritingMode) : Request :=
    .operate (.add (.plain 1 .left) ⟨mode, 0, 0, 30, 40⟩ mode ⟨200, 1000⟩)
  [.acquire .horizontalTb, .acquire .horizontalTb, .use 1 place,
    .use 1 fun _ => .operate (.translate 10 20), .use 1 fun _ => .operate (.addDamage ⟨0, 5⟩),
    .use 1 fun _ => .operate (.mark .pushedLeft), .release 1, .use 0 place, .release 0, .release 1]

/-- The context with the serial number 1 is at rest with its float, and new when it is handed out
    for the second time, in another mode. -/
theorem recycling_owners_apart :
    ∃ s, State.new 1 = .ok s ∧
      let d := after s recycling
      let mode := WritingMode.ofProperties .verticalLr .rtl
      d.pool.cache.map (fun held => (held.serial, held.context.floats.length)) = [(1, 1)] ∧
      (d.pool.acquire mode).1.serial = 1 ∧
      (∃ serial pool, (Step.acquire mode).run d =
        ({ d with pool, handles := d.handles ++ [some ⟨serial, .new mode⟩] },
          .ok (.acquired d.handles.length (.new mode) pool))) ∧
      (d.pool.atRest ++ lent d.handles).Nodup ∧
      d.pool.cache.length ≤ 1 ∧
      (after s (.shutDown :: recycling)).pool.cache.length = 0 := by
  have hnew : State.new 1 = .ok ⟨.empty 1, [], []⟩ := rfl
  obtain ⟨hacquired, hapart, hlength, -⟩ := owners_apart hnew recycling
  obtain ⟨-, -, -, hdown⟩ := owners_apart hnew (.shutDown :: recycling)
  exact ⟨_, hnew, by decide +kernel, by decide +kernel, hacquired _, hapart, hlength,
    hdown List.mem_cons_self⟩

end PoolScript

end FloatLayout
