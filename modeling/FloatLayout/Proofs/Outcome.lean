import FloatLayout.Fault

/-!
# Outcomes of checked computations

A computation that may stop with a fault is taken apart at its steps, and put together from steps
that are known to succeed.

## Main definitions

- `Succeeds`: a computation gives a value.
-/

namespace FloatLayout

variable {α β : Type}

theorem bind_eq_ok_iff {x : Except Fault α} {f : α → Except Fault β} {b : β} :
    x >>= f = .ok b ↔ ∃ a, x = .ok a ∧ f a = .ok b := by
  cases x with
  | error fault => exact ⟨nofun, fun ⟨_, h, _⟩ => nomatch h⟩
  | ok a => exact ⟨fun h => ⟨a, rfl, h⟩, fun ⟨_, h, h'⟩ => by cases h; exact h'⟩

/-- A function of the value of a computation may be applied after its last step. -/
theorem bind_eq_map_bind {γ : Type} {x : Except Fault α} {f : α → Except Fault β}
    {f' : α → Except Fault γ} {g : β → γ} (h : ∀ a, f' a = (f a).map g) :
    x >>= f' = (x >>= f).map g := by
  cases x with
  | error fault => rfl
  | ok a => exact h a

/-- Two computations with one first step have related outcomes if their remainders have. -/
theorem bind_map_congr {γ δ : Type} {x : Except Fault α} {f : α → Except Fault β}
    {f' : α → Except Fault γ} {g : β → δ} {g' : γ → δ} (h : ∀ a, (f a).map g = (f' a).map g') :
    (x >>= f).map g = (x >>= f').map g' := by
  cases x with
  | error fault => rfl
  | ok a => exact h a

theorem require_eq_ok_iff {condition : Prop} [Decidable condition] {fault : Fault} :
    require condition fault = .ok () ↔ condition := by
  unfold require
  split
  · exact ⟨fun _ => ‹_›, fun _ => rfl⟩
  · exact ⟨nofun, fun h => absurd h ‹_›⟩

/-- A computation behind a guard gives a value when the guard holds and it does. -/
theorem require_bind_eq_ok_iff {condition : Prop} [Decidable condition] {fault : Fault}
    {f : Unit → Except Fault β} {b : β} :
    require condition fault >>= f = .ok b ↔ condition ∧ f () = .ok b := by
  rw [bind_eq_ok_iff]
  constructor
  · rintro ⟨⟨⟩, h, h'⟩
    exact ⟨require_eq_ok_iff.1 h, h'⟩
  · rintro ⟨h, h'⟩
    exact ⟨(), require_of h, h'⟩

/-- A computation gives a value. -/
def Succeeds (x : Except Fault α) : Prop := ∃ a, x = .ok a

theorem Succeeds.pure (a : α) : Succeeds (pure a : Except Fault α) := ⟨a, rfl⟩

theorem Succeeds.require {condition : Prop} [Decidable condition] {fault : Fault}
    (h : condition) : Succeeds (require condition fault) := ⟨(), require_of h⟩

theorem Succeeds.bind {x : Except Fault α} {f : α → Except Fault β} (hx : Succeeds x)
    (hf : ∀ a, x = .ok a → Succeeds (f a)) : Succeeds (x >>= f) := by
  obtain ⟨a, rfl⟩ := hx
  exact hf a rfl

theorem Succeeds.foldlM {l : List α} {step : β → α → Except Fault β}
    (h : ∀ b, ∀ a ∈ l, Succeeds (step b a)) (b : β) : Succeeds (l.foldlM step b) := by
  induction l generalizing b with
  | nil => exact .pure b
  | cons a l ih =>
    rw [List.foldlM_cons]
    exact (h b a List.mem_cons_self).bind fun b' _ =>
      ih (fun c a' ha' => h c a' (List.mem_cons_of_mem a ha')) b'

/-- A list of computations gives the list of their values. -/
theorem exists_mapM_eq_ok {l : List α} {f : α → Except Fault β} {P : β → Prop}
    (h : ∀ a ∈ l, ∃ b, f a = .ok b ∧ P b) : ∃ bs, l.mapM f = .ok bs ∧ ∀ b ∈ bs, P b := by
  induction l with
  | nil => exact ⟨[], rfl, List.forall_mem_nil P⟩
  | cons a rest ih =>
    obtain ⟨b, hb, hP⟩ := h a List.mem_cons_self
    obtain ⟨bs, hbs, hall⟩ := ih fun a' ha' => h a' (List.mem_cons_of_mem a ha')
    refine ⟨b :: bs, ?_, List.forall_mem_cons.2 ⟨hP, hall⟩⟩
    rw [List.mapM_cons, hb, hbs]
    rfl

/-- A list of computations with known values gives the list of these values if all succeed. -/
theorem mapM_eq_ok_iff {f : α → Except Fault β} {g : α → β} {P : α → Prop}
    (h : ∀ a b, f a = .ok b ↔ P a ∧ g a = b) {l : List α} {bs : List β} :
    l.mapM f = .ok bs ↔ (∀ a ∈ l, P a) ∧ l.map g = bs := by
  induction l generalizing bs with
  | nil => exact ⟨fun hbs => by cases hbs; simp, fun hbs => by rw [← hbs.2]; rfl⟩
  | cons a rest ih =>
    rw [List.mapM_cons, bind_eq_ok_iff, List.forall_mem_cons, List.map_cons]
    constructor
    · rintro ⟨b, hb, hrest⟩
      obtain ⟨bs, hbs, hcons⟩ := bind_eq_ok_iff.1 hrest
      cases hcons
      obtain ⟨ha, rfl⟩ := (h a b).1 hb
      obtain ⟨hall, rfl⟩ := ih.1 hbs
      exact ⟨⟨ha, hall⟩, rfl⟩
    · rintro ⟨⟨ha, hall⟩, rfl⟩
      exact ⟨g a, (h a _).2 ⟨ha, rfl⟩, bind_eq_ok_iff.2 ⟨_, ih.2 ⟨hall, rfl⟩, rfl⟩⟩

end FloatLayout
