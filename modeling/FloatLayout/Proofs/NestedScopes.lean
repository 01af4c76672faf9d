import FloatLayout.Proofs.PoolOwnership
import FloatLayout.Script.LayoutScript

/-!
# Nested scopes

A scope that makes a float context of its own brings the outer one back when it ends, whatever its
body did in between and however the body ended. What it leaves in the slot goes to the pool, once.

## Main definitions

- `serials`: the serial number of a context that may be there or not.
- `Scope.owners`: the contexts in the slot, put aside by a scope and kept by the scopes around it.
- `Scope.Owns`: each of them, and each at rest, is in one place only.
- `Scope.Follows`: what a run in a scope does to the contexts that are about.
- `LayoutScript.released`: the contexts that a body gives to the pool, in turn.
- `LayoutScript.Reachable`: a moment of a program of layout, at any depth of scopes.
- `LayoutScript.Reachable.scope_gives_back`: what the end of a scope does.

## Design notes

A body is followed in its own scope only. Of the scopes around it no more is known than the serial
numbers of what they have put aside, and these only need to stay apart from all that the body has in
its hands. The same list grows by one scope at a time when a body is entered.

A body that is left early ends with a step that fails, and its scope ends as it does otherwise. A
failure that goes on through the scope around it is a step that fails right after the scope.
-/

namespace FloatLayout

/-- The serial number of a context, if there is one. -/
def serials (held : Option Held) : List Nat := (held.map Held.serial).toList

variable {kept : List Nat}

namespace Pool

theorem release_nextSerial (p : Pool) (held : Held) :
    (p.release held).nextSerial = p.nextSerial := by
  unfold release
  split
  · rfl
  · split <;> rfl

theorem nextSerial_le_acquire (p : Pool) (mode : WritingMode) :
    p.nextSerial ≤ (p.acquire mode).2.nextSerial := by
  unfold acquire
  split
  · exact Nat.le_refl _
  · exact Nat.le_succ _

end Pool

namespace Scope

variable {s : Scope}

/-- What the slot holds when the scope ends. -/
def restored (s : Scope) : Option Held := s.outer.getD s.layout.slot

/-- The context that goes to the pool when the scope ends. -/
def givenBack (s : Scope) : List Nat := if s.hasCreated then serials s.layout.slot else []

/-- The contexts in the slot, put aside by the scope and kept by those around it. -/
def owners (s : Scope) (kept : List Nat) : List Nat :=
  serials s.layout.slot ++ (serials s.outer.join ++ kept)

/-- Each context at rest, in the slot, put aside or kept by a scope around is in one place only. -/
def Owns (s : Scope) (kept : List Nat) : Prop := s.layout.pool.Owns (s.owners kept)

theorem leave_slot (s : Scope) : s.leave.slot = s.restored := by
  rcases s with ⟨_, _ | _⟩ <;> rfl

theorem leave_pool_of_none (h : s.layout.slot = none) : s.leave.pool = s.layout.pool := by
  rcases s with ⟨⟨_, _ | nested, pool⟩, _ | _⟩
  · rfl
  · rfl
  · cases h
  · cases h

theorem leave_pool_of_some {nested : Held} (hcreated : s.hasCreated = true)
    (h : s.layout.slot = some nested) : s.leave.pool = s.layout.pool.release nested := by
  rcases s with ⟨⟨_, _ | _, pool⟩, _ | _⟩
  · cases h
  · cases h
  · cases hcreated
  · cases h
    rfl

theorem givenBack_of_some {nested : Held} (hcreated : s.hasCreated = true)
    (h : s.layout.slot = some nested) : s.givenBack = [nested.serial] := by
  rw [givenBack, if_pos hcreated, h]
  rfl

theorem leave_nextSerial (s : Scope) : s.leave.pool.nextSerial = s.layout.pool.nextSerial := by
  rcases s with ⟨⟨_, _ | nested, pool⟩, _ | _⟩
  · rfl
  · rfl
  · rfl
  · exact pool.release_nextSerial nested

/-- A scope that made a context gives up what is in the slot for what it put aside. -/
theorem Owns.leave (h : s.Owns kept) : s.leave.pool.Owns (serials s.restored ++ kept) := by
  rcases s with ⟨⟨mode, _ | nested, pool⟩, _ | outer⟩
  · exact h
  · exact h
  · exact h
  · exact Pool.Owns.release nested h

/-- What goes to the pool is not kept by anybody. -/
theorem Owns.not_mem_of_givenBack (h : s.Owns kept) {serial : Nat}
    (hserial : serial ∈ s.givenBack) : serial ∉ serials s.restored ++ kept := by
  rcases s with ⟨layout, _ | outer⟩
  · cases hserial
  · have hapart := (List.nodup_append.1 (List.nodup_append.1 h.nodup).2.1).2.2
    exact fun hmem => hapart serial hserial serial hmem rfl

theorem Owns.lt_of_givenBack (h : s.Owns kept) {serial : Nat} (hserial : serial ∈ s.givenBack) :
    serial < s.layout.pool.nextSerial := by
  rcases s with ⟨layout, _ | outer⟩
  · cases hserial
  · exact h.lt_nextSerial serial (List.mem_append_right _ (List.mem_append_left _ hserial))

/-- The scope with a context of its own. -/
def made (s : Scope) : Scope :=
  let (held, pool) := s.layout.pool.acquire s.layout.mode
  ⟨{ s.layout with slot := some held, pool }, some s.layout.slot⟩

theorem create_eq_ok (h : s.outer = none) : s.create = .ok s.made := by
  rcases s with ⟨layout, _ | outer⟩
  · rfl
  · cases h

theorem create_eq_error (h : s.outer ≠ none) : s.create = .error .alreadyCreated := by
  rcases s with ⟨layout, _ | outer⟩
  · exact absurd rfl h
  · rfl

/-- What a run in a scope, from `s` to `t`, does to the contexts that are about. -/
structure Follows (kept : List Nat) (s t : Scope) (given : List Nat) : Prop where
  owns : t.Owns kept
  nextSerial_le : s.layout.pool.nextSerial ≤ t.layout.pool.nextSerial
  outer_eq : ∀ outer, s.outer = some outer → t.outer = some outer
  slot : t.outer = s.outer → ∀ serial ∈ serials t.layout.slot,
    serial ∈ serials s.layout.slot ∨ s.layout.pool.nextSerial ≤ serial
  restored : ∀ serial ∈ serials t.restored,
    serial ∈ serials s.restored ∨ s.layout.pool.nextSerial ≤ serial
  given_lt : ∀ serial ∈ given, serial < t.layout.pool.nextSerial
  given_slot : t.outer = s.outer → ∀ serial ∈ given, serial ∉ serials t.layout.slot
  given_restored : ∀ serial ∈ given, serial ∉ serials t.restored
  given_kept : ∀ serial ∈ given, serial ∉ kept

namespace Follows

variable {t u : Scope} {given given' : List Nat}

/-- A change of the slot and the pool that gives nothing away. -/
theorem of_layout (layout : LayoutState) (howns : Scope.Owns ⟨layout, s.outer⟩ kept)
    (hnext : s.layout.pool.nextSerial ≤ layout.pool.nextSerial)
    (hslot : ∀ serial ∈ serials layout.slot,
      serial ∈ serials s.layout.slot ∨ s.layout.pool.nextSerial ≤ serial) :
    s.Follows kept ⟨layout, s.outer⟩ [] where
  owns := howns
  nextSerial_le := hnext
  outer_eq _ houter := houter
  slot _ := hslot
  restored := by
    rcases s with ⟨_, _ | outer⟩
    · exact hslot
    · exact fun serial hserial => .inl hserial
  given_lt := List.forall_mem_nil _
  given_slot _ := List.forall_mem_nil _
  given_restored := List.forall_mem_nil _
  given_kept := List.forall_mem_nil _

theorem refl (h : s.Owns kept) : s.Follows kept s [] :=
  of_layout s.layout h (Nat.le_refl _) fun _ => .inl

/-- The scope puts the context in the slot aside for one from the pool. -/
theorem create (h : s.Owns kept) (houter : s.outer = none) : s.Follows kept s.made [] := by
  rcases s with ⟨layout, _ | outer⟩
  · exact {
      owns := Pool.Owns.acquire h layout.mode
      nextSerial_le := layout.pool.nextSerial_le_acquire layout.mode
      outer_eq := fun _ hnone => nomatch hnone
      slot := fun hsame => absurd hsame (Option.some_ne_none _)
      restored := fun serial hserial => .inl hserial
      given_lt := List.forall_mem_nil _
      given_slot := fun _ => List.forall_mem_nil _
      given_restored := List.forall_mem_nil _
      given_kept := List.forall_mem_nil _ }
  · cases houter

/-- Two runs, one after the other. -/
theorem trans (h : s.Follows kept t given) (h' : t.Follows kept u given') :
    s.Follows kept u (given ++ given') := by
  -- A scope that has put something aside goes on having it aside.
  have houter : u.outer = s.outer → t.outer = s.outer ∧ u.outer = t.outer := by
    intro hsame
    cases hs : s.outer with
    | some outer =>
      have ht := h.outer_eq outer hs
      exact ⟨ht, (h'.outer_eq outer ht).trans ht.symm⟩
    | none =>
      cases ht : t.outer with
      | none => exact ⟨rfl, hsame.trans hs⟩
      | some outer =>
        have hu := (h'.outer_eq outer ht).symm.trans (hsame.trans hs)
        cases hu
  have hnew : ∀ serial ∈ given, ¬t.layout.pool.nextSerial ≤ serial :=
    fun serial hserial => Nat.not_le_of_lt (h.given_lt serial hserial)
  exact {
    owns := h'.owns
    nextSerial_le := Nat.le_trans h.nextSerial_le h'.nextSerial_le
    outer_eq := fun outer hs => h'.outer_eq outer (h.outer_eq outer hs)
    slot := by
      intro hsame serial hserial
      obtain ⟨ht, hu⟩ := houter hsame
      rcases h'.slot hu serial hserial with hmem | hle
      · exact h.slot ht serial hmem
      · exact .inr (Nat.le_trans h.nextSerial_le hle)
    restored := by
      intro serial hserial
      rcases h'.restored serial hserial with hmem | hle
      · exact h.restored serial hmem
      · exact .inr (Nat.le_trans h.nextSerial_le hle)
    given_lt := by
      refine List.forall_mem_append.2 ⟨fun serial hserial => ?_, h'.given_lt⟩
      exact Nat.lt_of_lt_of_le (h.given_lt serial hserial) h'.nextSerial_le
    given_slot := by
      intro hsame
      obtain ⟨ht, hu⟩ := houter hsame
      refine List.forall_mem_append.2 ⟨fun serial hserial hmem => ?_, h'.given_slot hu⟩
      rcases h'.slot hu serial hmem with hmem | hle
      · exact h.given_slot ht serial hserial hmem
      · exact hnew serial hserial hle
    given_restored := by
      refine List.forall_mem_append.2 ⟨fun serial hserial hmem => ?_, h'.given_restored⟩
      rcases h'.restored serial hmem with hmem | hle
      · exact h.given_restored serial hserial hmem
      · exact hnew serial hserial hle
    given_kept := List.forall_mem_append.2 ⟨h.given_kept, h'.given_kept⟩ }

/-- A run in a scope of its own. -/
theorem nested (h : (Scope.enter s.layout).Follows (serials s.outer.join ++ kept) t given) :
    s.Follows kept ⟨t.leave, s.outer⟩ (given ++ t.givenBack) := by
  have howns := h.owns.leave
  have hgiven : ∀ serial ∈ given ++ t.givenBack,
      serial ∉ serials t.restored ++ (serials s.outer.join ++ kept) := by
    refine List.forall_mem_append.2
      ⟨fun serial hserial hmem => ?_, fun _ => h.owns.not_mem_of_givenBack⟩
    rcases List.mem_append.1 hmem with hmem | hmem
    · exact h.given_restored serial hserial hmem
    · exact h.given_kept serial hserial hmem
  rw [← t.leave_slot] at howns hgiven
  have hslot : ∀ serial ∈ serials t.leave.slot,
      serial ∈ serials s.layout.slot ∨ s.layout.pool.nextSerial ≤ serial := by
    rw [t.leave_slot]
    exact h.restored
  have hnext : s.layout.pool.nextSerial ≤ t.leave.pool.nextSerial := by
    rw [t.leave_nextSerial]
    exact h.nextSerial_le
  have hplain : s.Follows kept ⟨t.leave, s.outer⟩ [] := of_layout t.leave howns hnext hslot
  exact {
    owns := howns
    nextSerial_le := hnext
    outer_eq := hplain.outer_eq
    slot := hplain.slot
    restored := hplain.restored
    given_lt := by
      rw [t.leave_nextSerial]
      exact List.forall_mem_append.2 ⟨h.given_lt, fun _ => h.owns.lt_of_givenBack⟩
    given_slot := fun _ serial hserial hmem => hgiven serial hserial (List.mem_append_left _ hmem)
    given_restored := by
      rcases s with ⟨_, _ | outer⟩
      · exact fun serial hserial hmem => hgiven serial hserial (List.mem_append_left _ hmem)
      · exact fun serial hserial hmem =>
          hgiven serial hserial (List.mem_append_right _ (List.mem_append_left _ hmem))
    given_kept := fun serial hserial hmem =>
      hgiven serial hserial (List.mem_append_right _ (List.mem_append_right _ hmem)) }

end Follows

end Scope

namespace LayoutScript

mutual

/-- The contexts that a step gives to the pool. -/
def Step.released (s : State) : Step → List Nat
  | .scope body =>
    released s.nested body ++ (LayoutScript.run s.nested body).2.1.scope.givenBack
  | _ => []

/-- The contexts that a body gives to the pool, up to the first step that fails. -/
def released (s : State) : List Step → List Nat
  | [] => []
  | step :: rest =>
    step.released s ++
      match step.run s with
      | (_, .error _) => []
      | (next, .ok _) => released next rest

end

-- ════════════════════════════════════════════════════════════════════════
-- What a run keeps
-- ════════════════════════════════════════════════════════════════════════

theorem State.use_follows {s : State} (h : s.scope.Owns kept) (request : WritingMode → Request) :
    s.scope.Follows kept (s.use request).1.scope [] := by
  rcases s with ⟨⟨⟨mode, _ | held, pool⟩, outer⟩, checkpoints⟩
  · exact .refl h
  · exact .of_layout _ h (Nat.le_refl _) fun _ => .inl

/-- What is taken out of the slot is not there any more. -/
theorem State.emptied_owns {s : State} (h : s.scope.Owns kept) :
    s.layout.pool.Owns (serials s.scope.outer.join ++ kept) :=
  Pool.Owns.subperm h (List.sublist_append_right _ _).subperm

theorem State.install_follows {s : State} (h : s.scope.Owns kept) (mode : WritingMode) :
    s.scope.Follows kept ⟨s.layout.install mode, s.scope.outer⟩ [] := by
  refine .of_layout _ (Pool.Owns.make (State.emptied_owns h) mode) (Nat.le_succ _) ?_
  intro serial hserial
  exact .inr (Nat.le_of_eq (List.mem_singleton.1 hserial).symm)

-- The induction is on the program: a scope runs its body, and a body its steps.
mutual

/-- Every step keeps the contexts apart. -/
theorem Step.run_follows {s : State} {kept : List Nat} (h : s.scope.Owns kept) :
    ∀ step : Step, s.scope.Follows kept (step.run s).1.scope (step.released s)
  | .setMode mode => .of_layout { s.layout with mode } h (Nat.le_refl _) fun _ => .inl
  | .take =>
    .of_layout { s.layout with slot := none } (State.emptied_owns h) (Nat.le_refl _)
      (List.forall_mem_nil _)
  | .install mode => State.install_follows h mode
  | .shutDown =>
    .of_layout { s.layout with pool := s.layout.pool.shutDown } (Pool.Owns.shutDown h)
      (Nat.le_refl _) fun _ => .inl
  | .inspect | .abort _ | .hasCreated => .refl h
  | .use request => State.use_follows h request
  | .scope body => by
    have hnested : s.nested.scope.Owns (serials s.scope.outer.join ++ kept) := h
    exact (run_follows hnested body).nested
  | .create => by
    rw [Step.run]
    by_cases houter : s.scope.outer = none
    · rw [Scope.create_eq_ok houter]
      exact .create h houter
    · rw [Scope.create_eq_error houter]
      exact .refl h

/-- Every body keeps them apart, as far as it gets. -/
theorem run_follows {s : State} {kept : List Nat} (h : s.scope.Owns kept) :
    ∀ steps : List Step, s.scope.Follows kept (run s steps).2.1.scope (released s steps)
  | [] => .refl h
  | step :: rest => by
    have hstep := Step.run_follows h step
    rw [run, released]
    split
    · next next fault hrun =>
      simpa [hrun] using hstep
    · next next answer hrun =>
      simp only [hrun] at hstep ⊢
      exact hstep.trans (run_follows hstep.owns rest)

end

-- ════════════════════════════════════════════════════════════════════════
-- The moment of making
-- ════════════════════════════════════════════════════════════════════════

theorem run_cons_ok {s next : State} {step : Step} {answer : Answer}
    (h : step.run s = (next, .ok answer)) (rest : List Step) :
    run s (step :: rest) = (answer :: (run next rest).1, (run next rest).2) := by
  rw [run, h]

theorem run_cons_error {s next : State} {step : Step} {fault : Fault}
    (h : step.run s = (next, .error fault)) (rest : List Step) :
    run s (step :: rest) = ([], next, some fault) := by
  rw [run, h]

theorem released_cons_ok {s next : State} {step : Step} {answer : Answer}
    (h : step.run s = (next, .ok answer)) (rest : List Step) :
    released s (step :: rest) = step.released s ++ released next rest := by
  rw [released, h]

theorem Step.run_create {s : State} (h : s.scope.outer = none) :
    Step.create.run s =
      ({ s with scope := s.scope.made }, .ok (.created true s.scope.made.layout)) := by
  rw [run, Scope.create_eq_ok h]
  rfl

/-- Only one kind of step lets a scope put something aside. -/
theorem Step.run_outer (s : State) {step : Step} (h : step ≠ .create) :
    (step.run s).1.scope.outer = s.scope.outer := by
  cases step with
  | create => exact absurd rfl h
  | use request =>
    rcases s with ⟨⟨⟨mode, _ | held, pool⟩, outer⟩, checkpoints⟩ <;> rfl
  | setMode | take | install | shutDown | inspect | abort | scope | hasCreated => rfl

/-- A scope that has put something aside at the end of its body did so at one step of it, up to
    which no step failed. -/
theorem exists_create {s : State} {body : List Step} (hbefore : s.scope.outer = none)
    (hafter : (run s body).2.1.scope.outer ≠ none) :
    ∃ before rest answers mid, body = before ++ .create :: rest ∧
      run s before = (answers, mid, none) ∧ mid.scope.outer = none ∧
      (run s body).2.1 = (run (Step.create.run mid).1 rest).2.1 ∧
      released s body = released s before ++ released (Step.create.run mid).1 rest := by
  induction body generalizing s with
  | nil => exact absurd hbefore hafter
  | cons step rest ih =>
    by_cases hstep : step = .create
    · subst hstep
      have hrun := Step.run_create hbefore
      refine ⟨[], rest, [], s, rfl, rfl, hbefore, ?_, ?_⟩
      · rw [run_cons_ok hrun, hrun]
      · rw [released_cons_ok hrun, hrun]
        rfl
    · have houter := (Step.run_outer s hstep).trans hbefore
      rcases hrun : step.run s with ⟨next, fault | answer⟩
      · rw [hrun] at houter
        rw [run_cons_error hrun] at hafter
        exact absurd houter hafter
      · rw [hrun] at houter
        rw [run_cons_ok hrun] at hafter
        obtain ⟨before, rest, answers, mid, rfl, hmid, hnone, hlast, hreleased⟩ := ih houter hafter
        refine ⟨step :: before, rest, answer :: answers, mid, rfl, ?_, hnone, ?_, ?_⟩
        · rw [run_cons_ok hrun, hmid]
        · rw [run_cons_ok hrun, hlast]
        · rw [released_cons_ok hrun, released_cons_ok hrun, hreleased, List.append_assoc]

-- ════════════════════════════════════════════════════════════════════════
-- Programs
-- ════════════════════════════════════════════════════════════════════════

/-- A moment of a program of layout, at any depth of scopes, with the contexts that the scopes
    around the present one have put aside. -/
inductive Reachable : List Nat → State → Prop
  | new {mode : WritingMode} {cacheSize : Nat} {s : State} :
      State.new mode cacheSize = .ok s → Reachable [] s
  | stepped {kept : List Nat} {s : State} (step : Step) :
      Reachable kept s → Reachable kept (step.run s).1
  | entered {kept : List Nat} {s : State} :
      Reachable kept s → Reachable (serials s.scope.outer.join ++ kept) s.nested

/-- At every moment of a program, no context is in two places. -/
theorem Reachable.owns {s : State} (h : Reachable kept s) : s.scope.Owns kept := by
  induction h with
  | new hnew =>
    obtain ⟨pool, hpool, hs⟩ := bind_eq_ok_iff.1 hnew
    cases Pool.new_eq_ok hpool
    cases hs
    exact .empty _
  | stepped step _ ih => exact (Step.run_follows ih step).owns
  | entered _ ih => exact ih

/-- A program goes on from wherever a body stopped. -/
theorem Reachable.ran {s : State} (h : Reachable kept s) (steps : List Step) :
    Reachable kept (run s steps).2.1 := by
  induction steps generalizing s with
  | nil => exact h
  | cons step rest ih =>
    have hstep := h.stepped step
    rcases hrun : step.run s with ⟨next, fault | answer⟩
    · rw [hrun] at hstep
      rw [run_cons_error hrun]
      exact hstep
    · rw [hrun] at hstep
      rw [run_cons_ok hrun]
      exact ih hstep

/-- When a scope ends that made a context, by itself or because a step failed, the slot holds again
    what it held just before the context was made, whatever happened since. The context made was
    new, in the writing mode of layout, and nobody else had it. What the scope leaves in the slot
    goes to the pool at its end, was not given to the pool before then, and is not held any more. -/
theorem Reachable.scope_gives_back {s : State} (h : Reachable kept s) (body : List Step)
    (hcreated : (run s.nested body).2.1.scope.hasCreated = true) :
    let last := (run s.nested body).2.1
    let after := ((Step.scope body).run s).1
    ∃ before rest answers mid held,
      body = before ++ .create :: rest ∧ run s.nested before = (answers, mid, none) ∧
      mid.scope.hasCreated = false ∧
      let inside := (Step.create.run mid).1
      (run inside rest).2.1 = last ∧
      inside.layout.slot = some held ∧ held.context = .new mid.layout.mode ∧
      held.serial ∉ mid.scope.owners (serials s.scope.outer.join ++ kept) ∧
      after.layout.slot = mid.layout.slot ∧
      (last.layout.slot = none → after.layout.pool = last.layout.pool) ∧
      ∀ left, last.layout.slot = some left →
        after.layout.pool = last.layout.pool.release left ∧
        (Step.scope body).released s =
          released s.nested before ++ (released inside rest ++ [left.serial]) ∧
        left.serial ∉ released inside rest ∧ left.serial ∉ after.scope.owners kept := by
  intro last after
  have hentered : s.nested.scope.Owns (serials s.scope.outer.join ++ kept) := h.owns
  obtain ⟨before, rest, answers, mid, hbody, hmid, hnone, hlast, hreleased⟩ :=
    exists_create (s := s.nested) rfl (Option.isSome_iff_ne_none.1 hcreated)
  have hmidOwns : mid.scope.Owns (serials s.scope.outer.join ++ kept) := by
    have := (run_follows hentered before).owns
    rwa [hmid] at this
  have hinside : (Step.create.run mid).1.scope = mid.scope.made := by rw [Step.run_create hnone]
  have hrest := run_follows (Step.run_follows hmidOwns .create).owns rest
  rw [← hlast, hinside] at hrest
  have hlastOuter : last.scope.outer = some mid.layout.slot := hrest.outer_eq _ rfl
  refine ⟨before, rest, answers, mid, (mid.layout.pool.acquire mid.layout.mode).1, hbody, hmid, ?_⟩
  refine ⟨?_, hlast.symm, ?_, mid.layout.pool.acquire_context _, ?_, ?_, ?_, ?_⟩
  · rw [Scope.hasCreated, hnone]
    rfl
  · rw [State.layout, hinside]
    rfl
  · have hacquired := Pool.Owns.acquire hmidOwns mid.layout.mode
    exact (List.nodup_cons.1 (List.nodup_append.1 hacquired.nodup).2.1).1
  · have hslot : after.layout.slot = last.scope.restored := last.scope.leave_slot
    rw [hslot, Scope.restored, hlastOuter]
    rfl
  · exact last.scope.leave_pool_of_none
  · intro left hleft
    have hgiven : last.scope.givenBack = [left.serial] := Scope.givenBack_of_some hcreated hleft
    have hmem : left.serial ∈ last.scope.givenBack := by
      rw [hgiven]
      exact List.mem_singleton_self _
    refine ⟨Scope.leave_pool_of_some hcreated hleft, ?_, ?_, ?_⟩
    · rw [Step.released, hreleased, hgiven, List.append_assoc]
    · intro hearlier
      refine hrest.given_slot hlastOuter _ hearlier ?_
      change left.serial ∈ serials last.layout.slot
      rw [hleft]
      exact List.mem_singleton_self _
    · have howners : after.scope.owners kept =
          serials last.scope.restored ++ (serials s.scope.outer.join ++ kept) := by
        rw [← last.scope.leave_slot]
        rfl
      rw [howners]
      exact hrest.owns.not_mem_of_givenBack hmem

/-- Layout with a context whose containing block has moved. -/
def unsheltered : State :=
  (run ⟨.enter (.new .horizontalTb (.empty 4)), []⟩
    [.install .horizontalTb, .use fun _ => .operate (.translate 7 0)]).2.1

/-- A scope that has made a context and placed a float in it. -/
def sheltered : State :=
  (run unsheltered.nested [.create, .use fun mode =>
    .operate (.add (.plain 1 .left) ⟨mode, 0, 0, 30, 40⟩ mode ⟨200, 1000⟩)]).2.1

theorem sheltered_reachable : Reachable [0] sheltered.nested := by
  have hnew : State.new .horizontalTb 4 = .ok ⟨.enter (.new .horizontalTb (.empty 4)), []⟩ := rfl
  have hstart : Reachable [] unsheltered := (Reachable.new hnew).ran _
  have hinner : Reachable [] sheltered := hstart.entered.ran _
  have hkept : serials sheltered.scope.outer.join ++ [] = [0] := by decide +kernel
  exact hkept ▸ hinner.entered

/-- A body that makes a context, puts another one in its place and fails when it is to make one
    again. Scopes within it fail, or end by themselves. -/
def sheltering : List Step :=
  let place (mode : WritingMode) : Request :=
    .operate (.add (.plain 2 .right) ⟨mode, 0, 0, 20, 20⟩ mode ⟨200, 1000⟩)
  [.setMode (.ofProperties .verticalRl .rtl), .scope [.create, .use place, .abort "no room"],
    .create, .use place, .scope [.create], .install (.ofProperties .sidewaysLr .ltr),
    .use fun _ => .operate (.mark .splitLeft), .create, .take]

/-- The context with the number 2 is made for a scope within the body and for the body itself, and
    the one with the number 4 is left in the slot. -/
theorem sheltered_scope_gives_back :
    let last := (run sheltered.nested.nested sheltering).2.1
    let after := ((Step.scope sheltering).run sheltered.nested).1
    Reachable [0] sheltered.nested ∧ last.scope.hasCreated = true ∧
      (run sheltered.nested.nested sheltering).2.2 = some .alreadyCreated ∧
      (Step.scope sheltering).released sheltered.nested = [2, 3, 4] ∧
      after.layout.slot = sheltered.nested.layout.slot ∧ after.layout.pool.atRest = [4, 3] ∧
      ∃ before rest answers mid, ∃ held : Held,
        sheltering = before ++ .create :: rest ∧
        run sheltered.nested.nested before = (answers, mid, none) ∧
        held.context = .new mid.layout.mode ∧ held.serial ∉ mid.scope.owners [0] ∧
        after.layout.slot = mid.layout.slot ∧
        ∀ left, last.layout.slot = some left →
          after.layout.pool = last.layout.pool.release left ∧
          left.serial ∉ released (Step.create.run mid).1 rest ∧
          left.serial ∉ after.scope.owners [0] := by
  intro last after
  have hcreated : last.scope.hasCreated = true := by decide +kernel
  refine ⟨sheltered_reachable, hcreated, by decide +kernel, by decide +kernel, by decide +kernel,
    by decide +kernel, ?_⟩
  obtain ⟨before, rest, answers, mid, held, hbody, hmid, -, -, -, hnew, hown, hslot, -, hleft⟩ :=
    sheltered_reachable.scope_gives_back sheltering hcreated
  refine ⟨before, rest, answers, mid, held, hbody, hmid, hnew, hown, hslot, fun left h => ?_⟩
  obtain ⟨hpool, -, honce, hgone⟩ := hleft left h
  exact ⟨hpool, honce, hgone⟩

end LayoutScript

end FloatLayout
