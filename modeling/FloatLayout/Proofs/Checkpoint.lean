import FloatLayout.Proofs.Watermarks
import FloatLayout.Script.Request

/-!
# Checkpoints

A checkpoint holds how many floats there were, and not the floats themselves. That is enough to go
back to it: changes only put floats before those that are there, or take the first ones away, so as
long as there are never fewer floats than at the checkpoint, its floats stand untouched at the end
of the list.

## Main definitions

- `FloatContext.after`: the context after a run of changes.
- `FloatContext.Keeps`: at no moment of a run are there fewer floats than before it.
- `FloatContext.AnswersAs`: two contexts answer every question alike.
- `FloatContext.Keeps.suffix`: what a run leaves of the floats that were there before it.
-/

namespace FloatLayout

variable {c d : FloatContext} {operations : List Operation} {base : List PlacedFloat}

-- ════════════════════════════════════════════════════════════════════════
-- A single change
-- ════════════════════════════════════════════════════════════════════════

theorem Operation.apply_mode (c : FloatContext) (operation : Operation) :
    (operation.apply c).1.mode = c.mode := by
  cases operation with
  | translate dx dy => rfl
  | add box marginRect mode container =>
    rcases apply_add_eq_or c box marginRect mode container with h | ⟨side, f, -, h⟩ <;> rw [h]
  | removeTrailing ids => rfl
  | rewind checkpoint => rfl
  | mark m => rfl
  | addDamage range =>
    rcases apply_addDamage_eq_or c range with h | ⟨damage, h⟩ <;> rw [h]

theorem Operation.suffix_apply_floats {operation : Operation} (hbase : base <:+ c.floats)
    (hlength : base.length ≤ (operation.apply c).1.floats.length) :
    base <:+ (operation.apply c).1.floats := by
  rcases operation.apply_floats c with hsuffix | ⟨f, -, -, hfloats⟩
  · exact List.suffix_of_suffix_length_le hbase hsuffix hlength
  · rw [hfloats]
    exact hbase.trans (List.suffix_cons _ _)

namespace FloatContext

-- ════════════════════════════════════════════════════════════════════════
-- Runs
-- ════════════════════════════════════════════════════════════════════════

/-- The context after a run of changes. A change that fails leaves what it leaves, and the run goes
    on. -/
def after (c : FloatContext) (operations : List Operation) : FloatContext :=
  operations.foldl (fun d operation => (operation.apply d).1) c

/-- At no moment of a run are there fewer floats than before it. -/
def Keeps (c : FloatContext) (operations : List Operation) : Prop :=
  ∀ n ≤ operations.length, c.floats.length ≤ (c.after (operations.take n)).floats.length

instance (c : FloatContext) (operations : List Operation) : Decidable (c.Keeps operations) :=
  inferInstanceAs (Decidable (∀ n ≤ operations.length, _))

theorem after_mode (c : FloatContext) (operations : List Operation) :
    (c.after operations).mode = c.mode := by
  induction operations generalizing c with
  | nil => rfl
  | cons operation rest ih => exact (ih _).trans (operation.apply_mode c)

/-- Floats at the end of the list stay there over a run that never leaves fewer floats than them. -/
theorem suffix_after_floats (hbase : base <:+ c.floats)
    (hlength : ∀ n ≤ operations.length,
      base.length ≤ (c.after (operations.take n)).floats.length) :
    base <:+ (c.after operations).floats := by
  induction operations generalizing c with
  | nil => exact hbase
  | cons operation rest ih =>
    have hfirst := hlength 1 (Nat.succ_le_succ (Nat.zero_le _))
    refine ih (Operation.suffix_apply_floats hbase hfirst) fun n hn => ?_
    exact hlength (n + 1) (Nat.succ_le_succ hn)

theorem Keeps.suffix (h : c.Keeps operations) : c.floats <:+ (c.after operations).floats :=
  suffix_after_floats (List.suffix_refl _) h

theorem Keeps.take (h : c.Keeps operations) (n : Nat) : c.Keeps (operations.take n) := by
  intro m hm
  rw [List.length_take] at hm
  rw [List.take_take, Nat.min_eq_left (by omega)]
  exact h m (by omega)

-- ════════════════════════════════════════════════════════════════════════
-- The way back
-- ════════════════════════════════════════════════════════════════════════

theorem floatsAt_checkpoint (h : c.floats <:+ d.floats) : d.floatsAt c.checkpoint = c.floats :=
  (List.suffix_iff_eq_drop.1 h).symm

/-- All that the checkpoint does not bring back is the damage. -/
theorem rewind_checkpoint (hmode : d.mode = c.mode) (h : c.floats <:+ d.floats) :
    d.rewind c.checkpoint = { c with damage := d.damage } := by
  simp only [rewind, floatsAt_checkpoint h, hmode]
  rfl

/-- Two contexts answer every question alike. -/
structure AnswersAs (d c : FloatContext) : Prop where
  flowArea : ∀ q, d.flowArea q = c.flowArea q
  clear : ∀ position side placedOnly,
    d.clear position side placedOnly = c.clear position side placedOnly
  clearContinues : ∀ side, d.clearContinues side = c.clearContinues side
  lowestFloatTop : d.lowestFloatTop = c.lowestFloatTop

theorem answersAs_damage (c : FloatContext) (damage : Damage) :
    AnswersAs { c with damage } c where
  flowArea _ := rfl
  clear _ _ _ := rfl
  clearContinues _ := rfl
  lowestFloatTop := rfl

/-- With more floats placed since, a question about a checkpoint has the answer of that time, if the
    containing block is at the same place. -/
theorem flowArea_since (hmode : d.mode = c.mode) (hoffset : d.offset = c.offset)
    (h : c.floats <:+ d.floats) (q : FlowQuery) :
    d.flowArea { q with checkpoint := some c.checkpoint } =
      c.flowArea { q with checkpoint := none } := by
  have hvisible : d.floatsAt c.checkpoint = c.floats := floatsAt_checkpoint h
  have hpast : ∀ p ∈ some c.checkpoint, p.count ≤ d.floats.length := by
    intro p hp
    cases hp
    exact h.length_le
  have hnone : ∀ p ∈ (none : Option Checkpoint), p.count ≤ c.floats.length := by
    intro p hp
    cases hp
  simp only [flowArea, expectDirections, visible, startOf, clearingOf, answer, hmode, hoffset,
    hvisible, require_of hpast, require_of hnone]

/-- A run from `refilled` that places floats, removes some, goes back to an earlier checkpoint of
    its own and fails to go back to one that is too late. -/
def departing : List Operation :=
  let place (id : Nat) (float : FloatValue) (i b inline block : Length) : Operation :=
    .add (.plain id float) ⟨.horizontalTb, i, b, inline, block⟩ .horizontalTb ⟨200, 1000⟩
  [.translate 5 40, place 5 .left 0 10 30 30, .mark .pushedLeft, place 6 .right 150 10 40 20,
    .rewind ⟨⟨5, 50⟩, {}, 4⟩, .addDamage ⟨0, 30⟩, place 7 .left 30 10 10 10, .removeTrailing [5, 7],
    .rewind ⟨⟨3, 0⟩, { splitRight := true }, 6⟩, place 8 .right 100 0 20 20]

/-- A run that never leaves fewer floats than there were before it can be undone. Going back to the
    checkpoint from before the run succeeds and brings all back but the damage, so that every
    question has the answer of that time again and nothing seems to have changed. In the meantime a
    question about the checkpoint has that answer whenever the containing block is where it was. -/
theorem Keeps.rewind_after (h : c.Keeps operations) :
    (Operation.rewind c.checkpoint).apply (c.after operations) =
        ({ c with damage := (c.after operations).damage }, .ok ()) ∧
      AnswersAs ((c.after operations).rewind c.checkpoint) c ∧
      (∀ (checkpoints : List Checkpoint) (index : Nat), checkpoints[index]? = some c.checkpoint →
        (Request.expectUnchanged index).answer ((c.after operations).rewind c.checkpoint)
          checkpoints = .ok .unchanged) ∧
      ∀ n, (c.after (operations.take n)).offset = c.offset → ∀ q : FlowQuery,
        (c.after (operations.take n)).flowArea { q with checkpoint := some c.checkpoint } =
          c.flowArea { q with checkpoint := none } := by
  have hrewind := rewind_checkpoint (after_mode c operations) h.suffix
  refine ⟨?_, ?_, ?_, ?_⟩
  · have hcount : c.checkpoint.count ≤ (c.after operations).floats.length := h.suffix.length_le
    simp only [Operation.apply, hrewind, require_of hcount]
  · rw [hrewind]
    exact answersAs_damage c _
  · intro checkpoints index hentry
    have hsame : ((c.after operations).rewind c.checkpoint).checkpoint = c.checkpoint := by
      rw [hrewind]
      rfl
    have hfound : entry checkpoints index = .ok c.checkpoint := by
      simp only [entry, hentry]
    exact bind_eq_ok_iff.2 ⟨_, hfound, require_bind_eq_ok_iff.2 ⟨hsame, rfl⟩⟩
  · intro n hoffset q
    exact flowArea_since (after_mode c _) hoffset (h.take n).suffix q

theorem refilled_rewind_after :
    refilled.Keeps departing ∧ (refilled.after departing).floats.length = 4 ∧
      (Operation.rewind refilled.checkpoint).apply (refilled.after departing) =
        ({ refilled with damage := ⟨[⟨50, 80⟩]⟩ }, .ok ()) ∧
      AnswersAs ((refilled.after departing).rewind refilled.checkpoint) refilled := by
  have hkeeps : refilled.Keeps departing := by decide
  obtain ⟨happly, hanswers, -⟩ := hkeeps.rewind_after
  exact ⟨hkeeps, rfl, happly, hanswers⟩

end FloatContext

end FloatLayout
