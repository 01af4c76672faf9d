import FloatLayout.FloatContext.Operation
import FloatLayout.Pool
import FloatLayout.Proofs.Outcome

/-!
# Reachable contexts

The float contexts that layout can come to hold, and what a single change does to their floats.

## Main definitions

- `Operation.apply_add_eq_or`, `Operation.apply_addDamage_eq_or`: the changes that may fail.
- `FloatContext.Reachable`: a context after any changes of a new one.
- `FloatContext.Reachable.forall_floats`: what holds of every record when its box is placed.

## Design notes

A change that fails half way leaves a context behind, and layout may go on with it. The contexts
after failed changes are therefore among the reachable ones.
-/

namespace FloatLayout

/-- The record of a box before any other float counts. -/
theorem PlacedFloat.place_eq_ok {box : FloatBox} {side : LineSide} {dx dy : Length}
    {marginRect : Logical.Rect Length} {mode : WritingMode} {container : Size Length}
    {f : PlacedFloat} (h : place box side dx dy marginRect mode container = .ok f) :
    marginRect.mode = mode ∧ ∃ shape : Option Shape,
      f = { id := box.id, side, rect := (LineRelative.rect marginRect container).shift dx dy,
            leftEnd := .least, rightEnd := .least, shape } := by
  obtain ⟨rect, hrect, h⟩ := bind_eq_ok_iff.1 h
  obtain ⟨hmode, hrect⟩ := require_bind_eq_ok_iff.1 hrect
  cases hrect
  refine ⟨hmode, ?_⟩
  dsimp only at h
  split at h
  · cases h
    exact ⟨none, rfl⟩
  · obtain ⟨outcome, -, h⟩ := bind_eq_ok_iff.1 h
    cases outcome with
    | error failure =>
      cases h
      exact ⟨none, rfl⟩
    | ok shape =>
      cases h
      exact ⟨_, rfl⟩

namespace FloatContext

variable {c d : FloatContext}

/-- Placing a float puts its record before those of the floats placed earlier. -/
theorem add_eq_ok {box : FloatBox} {marginRect : Logical.Rect Length} {mode : WritingMode}
    {container : Size Length} (h : c.add box marginRect mode container = .ok d) :
    c.mode.SameDirections mode ∧ 0 ≤ marginRect.inlineSize ∧ 0 ≤ marginRect.blockSize ∧
      ∃ side f, box.float.side? mode = some side ∧
        PlacedFloat.place box side c.offset.x c.offset.y marginRect mode container = .ok f ∧
        d = { c with floats := f.follow c.floats.head? :: c.floats } := by
  obtain ⟨hmode, h⟩ := require_bind_eq_ok_iff.1 h
  obtain ⟨hinline, h⟩ := require_bind_eq_ok_iff.1 h
  obtain ⟨hblock, h⟩ := require_bind_eq_ok_iff.1 h
  refine ⟨hmode, hinline, hblock, ?_⟩
  cases hside : box.float.side? mode with
  | none => simp [hside] at h
  | some side =>
    rw [hside] at h
    obtain ⟨f, hf, h⟩ := bind_eq_ok_iff.1 h
    cases h
    exact ⟨side, f, rfl, hf, rfl⟩

end FloatContext

/-- Placing a box fails, or it puts one more record before the others. -/
theorem Operation.apply_add_eq_or (c : FloatContext) (box : FloatBox)
    (marginRect : Logical.Rect Length) (mode : WritingMode) (container : Size Length) :
    ((add box marginRect mode container).apply c).1 = c ∨
      ∃ side f, PlacedFloat.place box side c.offset.x c.offset.y marginRect mode container = .ok f ∧
        ((add box marginRect mode container).apply c).1 =
          { c with floats := f.follow c.floats.head? :: c.floats } := by
  cases hadd : c.add box marginRect mode container with
  | error fault =>
    left
    simp only [apply, hadd]
  | ok next =>
    obtain ⟨-, -, -, side, f, -, hf, rfl⟩ := FloatContext.add_eq_ok hadd
    right
    exact ⟨side, f, hf, by simp only [apply, hadd]⟩

/-- Adding damage fails, or it changes nothing but the damage. -/
theorem Operation.apply_addDamage_eq_or (c : FloatContext) (range : Band) :
    ((addDamage range).apply c).1 = c ∨
      ∃ damage, ((addDamage range).apply c).1 = { c with damage } := by
  cases hdamage : c.addDamage range with
  | error fault =>
    left
    simp only [apply, hdamage]
  | ok next =>
    obtain ⟨damage, -, h⟩ := bind_eq_ok_iff.1 hdamage
    cases h
    right
    exact ⟨damage, by simp only [apply, hdamage]⟩

/-- A change takes away floats placed last, or it puts the record of one more box before them. -/
theorem Operation.apply_floats_of_place (c : FloatContext) (operation : Operation) :
    (operation.apply c).1.floats <:+ c.floats ∨
      ∃ box side marginRect mode container f,
        PlacedFloat.place box side c.offset.x c.offset.y marginRect mode container = .ok f ∧
        (operation.apply c).1.floats = f.follow c.floats.head? :: c.floats := by
  cases operation with
  | translate dx dy => exact .inl (List.suffix_refl _)
  | add box marginRect mode container =>
    rcases apply_add_eq_or c box marginRect mode container with h | ⟨side, f, hf, h⟩
    · rw [h]
      exact .inl (List.suffix_refl _)
    · rw [h]
      exact .inr ⟨box, side, marginRect, mode, container, f, hf, rfl⟩
  | removeTrailing ids => exact .inl (List.dropWhile_suffix _)
  | rewind checkpoint => exact .inl (List.drop_suffix _ _)
  | mark m => exact .inl (List.suffix_refl _)
  | addDamage range =>
    rcases apply_addDamage_eq_or c range with h | ⟨damage, h⟩ <;>
    · rw [h]
      exact .inl (List.suffix_refl _)

/-- A change takes away floats placed last, or it puts the record of one more float before them. -/
theorem Operation.apply_floats (c : FloatContext) (operation : Operation) :
    (operation.apply c).1.floats <:+ c.floats ∨
      ∃ f : PlacedFloat, f.leftEnd = .least ∧ f.rightEnd = .least ∧
        (operation.apply c).1.floats = f.follow c.floats.head? :: c.floats := by
  rcases operation.apply_floats_of_place c with hsuffix | ⟨_, _, _, _, _, f, hf, hfloats⟩
  · exact .inl hsuffix
  · obtain ⟨-, shape, hshape⟩ := PlacedFloat.place_eq_ok hf
    exact .inr ⟨f, by rw [hshape], by rw [hshape], hfloats⟩

namespace FloatContext

variable {c d : FloatContext}

/-- A context that was made new, or handed out by a pool, and then changed any number of times. -/
inductive Reachable : FloatContext → Prop
  | new (mode : WritingMode) : Reachable (.new mode)
  | acquired (pool : Pool) (mode : WritingMode) : Reachable (pool.acquire mode).1.context
  | changed {c : FloatContext} (operation : Operation) :
      Reachable c → Reachable (operation.apply c).1

/-- A history without failures leads from a reachable context to a reachable one. -/
theorem Reachable.run {operations : List Operation} (hc : c.Reachable)
    (h : c.run operations = .ok d) : d.Reachable := by
  induction operations generalizing c with
  | nil =>
    cases h
    exact hc
  | cons operation rest ih =>
    have hnext : (operation.apply c).1.Reachable := hc.changed operation
    unfold FloatContext.run at h
    split at h
    · next next happly =>
      rw [happly] at hnext
      exact ih hnext h
    · cases h

end FloatContext

/-- A pool hands out contexts that are as good as new. -/
theorem Pool.acquire_context (pool : Pool) (mode : WritingMode) :
    (pool.acquire mode).1.context = .new mode := by
  unfold acquire
  split <;> rfl

/-- What holds of the record of every box, behind whatever float it is placed, holds of every float
    of a reachable context. -/
theorem FloatContext.Reachable.forall_floats {c : FloatContext} {P : PlacedFloat → Prop}
    (h : c.Reachable)
    (hplace : ∀ {box side dx dy marginRect mode container f} (last : Option PlacedFloat),
      PlacedFloat.place box side dx dy marginRect mode container = .ok f → P (f.follow last)) :
    ∀ f ∈ c.floats, P f := by
  induction h with
  | new mode => exact List.forall_mem_nil _
  | acquired pool mode =>
    rw [Pool.acquire_context]
    exact List.forall_mem_nil _
  | @changed c operation _ ih =>
    rcases operation.apply_floats_of_place c with hsuffix | ⟨_, _, _, _, _, f, hf, hfloats⟩
    · exact fun f hf => ih f (hsuffix.subset hf)
    · rw [hfloats]
      exact List.forall_mem_cons.2 ⟨hplace _ hf, ih⟩

end FloatLayout
