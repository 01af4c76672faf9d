import FloatLayout.LineSide
import FloatLayout.PlacedFloat
import FloatLayout.Proofs.Extremes
import FloatLayout.Proofs.Outcome

/-!
# Outermost positions

Edges of shapes are outermost positions: the least ones of many on the line-left side, and the
greatest on the line-right side. They are compared by the positions that lie outside of them, in
words that are the same for both sides.

## Main definitions

- `LineSide.Outside`: a position lies at another one or farther out.
- `LineSide.eq_of_outside_iff`: a position is known by what lies outside of it.
- `LineSide.foldl_outer_innermost_mem`: the outermost of some positions is one of them.
- `LineSide.foldl_outer_innermost_moved`: the outermost of moved positions.
- `LineSide.outside_foldlM_iff`: what lies outside of a checked fold over the parts of a shape.
-/

namespace FloatLayout

theorem Length.clamp_le_clamp {m n : Int} (h : m ≤ n) : clamp m ≤ clamp n := by
  simp only [le_def, units_clamp]
  omega

namespace LineSide

variable {side : LineSide} {a b p q : Length} {l : List Length}

/-- `p` lies at `a` or farther out. -/
def Outside (side : LineSide) (p a : Length) : Prop :=
  match side with
  | .left => p ≤ a
  | .right => a ≤ p

instance (side : LineSide) (p a : Length) : Decidable (side.Outside p a) := by
  cases side
  · exact inferInstanceAs (Decidable (p ≤ a))
  · exact inferInstanceAs (Decidable (a ≤ p))

theorem Outside.refl (side : LineSide) (a : Length) : side.Outside a a := by
  cases side <;> exact le_refl a

theorem Outside.trans (h : side.Outside a b) (h' : side.Outside b p) : side.Outside a p := by
  cases side
  · exact le_trans h h'
  · exact le_trans h' h

theorem Outside.antisymm (h : side.Outside a b) (h' : side.Outside b a) : a = b := by
  cases side
  · exact le_antisymm h h'
  · exact le_antisymm h' h

theorem eq_of_outside_iff (side : LineSide) (h : ∀ p, side.Outside p a ↔ side.Outside p b) :
    a = b :=
  ((h a).1 (.refl side a)).antisymm ((h b).2 (.refl side b))

theorem outside_innermost (side : LineSide) (p : Length) : side.Outside p side.innermost := by
  cases side
  · exact Length.le_greatest p
  · exact Length.least_le p

theorem outside_outer_iff :
    side.Outside p (side.outer a b) ↔ side.Outside p a ∧ side.Outside p b := by
  cases side
  · exact le_min_iff
  · exact max_le_iff

theorem outside_foldl_outer_iff :
    side.Outside p (l.foldl side.outer a) ↔ side.Outside p a ∧ ∀ b ∈ l, side.Outside p b := by
  cases side
  · exact Length.le_foldl_min_iff
  · exact Length.foldl_max_le_iff

theorem outer_eq_or (side : LineSide) (a b : Length) :
    side.outer a b = a ∨ side.outer a b = b := by
  cases side
  · exact min_choice a b
  · exact max_choice a b

/-- The outermost position of a list stands in it, unless the list is empty. -/
theorem foldl_outer_innermost_mem (side : LineSide) (hl : l ≠ []) :
    l.foldl side.outer side.innermost ∈ l := by
  rcases Length.foldl_eq_or_mem side.outer_eq_or l side.innermost with hfold | hmem
  · -- Nothing is farther in than the start, so that an entry of the list lies where it does.
    obtain ⟨b, hb⟩ := List.exists_mem_of_ne_nil l hl
    have hout : side.Outside (l.foldl side.outer side.innermost) b :=
      (outside_foldl_outer_iff.1 (.refl side _)).2 b hb
    rw [hfold] at hout ⊢
    rw [hout.antisymm (outside_innermost side b)]
    exact hb
  · exact hmem

/-- The outermost of positions that are all moved by a distance is moved by it. -/
theorem foldl_outer_moved {α : Type} (side : LineSide) {l : List α} {f g : α → Length}
    {a b d : Length} (hab : b.units = a.units + d.units)
    (h : ∀ v ∈ l, (g v).units = (f v).units + d.units) :
    ((l.map g).foldl side.outer b).units = ((l.map f).foldl side.outer a).units + d.units := by
  induction l generalizing a b with
  | nil => exact hab
  | cons v rest ih =>
    obtain ⟨hv, hrest⟩ := List.forall_mem_cons.1 h
    refine ih ?_ hrest
    cases side with
    | left =>
      change (min b (g v)).units = (min a (f v)).units + d.units
      rw [Length.units_min, Length.units_min]
      omega
    | right =>
      change (max b (g v)).units = (max a (f v)).units + d.units
      rw [Length.units_max, Length.units_max]
      omega

theorem foldl_outer_innermost_moved {α : Type} (side : LineSide) {l : List α} {f g : α → Length}
    {d : Length} (hl : l ≠ []) (h : ∀ v ∈ l, (g v).units = (f v).units + d.units) :
    ((l.map g).foldl side.outer side.innermost).units =
      ((l.map f).foldl side.outer side.innermost).units + d.units := by
  obtain ⟨v, rest, rfl⟩ := List.exists_cons_of_ne_nil hl
  obtain ⟨hv, hrest⟩ := List.forall_mem_cons.1 h
  have hinnermost : ∀ a : Length, side.outer side.innermost a = a := fun a =>
    side.eq_of_outside_iff fun p => by
      rw [outside_outer_iff, and_iff_right (outside_innermost side p)]
  simp only [List.map_cons, List.foldl_cons, hinnermost]
  exact foldl_outer_moved side hv hrest

theorem outside_clip_iff :
    side.Outside p (PlacedFloat.clip side a b) ↔ side.Outside p a ∨ side.Outside p b := by
  cases side with
  | left =>
    change p ≤ max a b ↔ p ≤ a ∨ p ≤ b
    simp only [Length.le_def, Length.units_max]
    omega
  | right =>
    change min a b ≤ p ↔ a ≤ p ∨ b ≤ p
    simp only [Length.le_def, Length.units_min]
    omega

theorem Outside.clip (h : side.Outside p q) (a : Length) :
    side.Outside (PlacedFloat.clip side a p) (PlacedFloat.clip side a q) := by
  rcases outside_clip_iff.1 (Outside.refl side (PlacedFloat.clip side a p)) with hbox | hshape
  · exact outside_clip_iff.2 (.inl hbox)
  · exact outside_clip_iff.2 (.inr (hshape.trans h))

/-- A checked fold over the parts of a shape is the outermost of the positions of all parts. -/
theorem outside_foldlM_iff {α : Type} {position : α → Except Fault Length} {parts : List α}
    {x : Length}
    (h : parts.foldlM (fun found part => return side.outer found (← position part)) a = .ok x) :
    side.Outside p x ↔
      side.Outside p a ∧ ∀ part ∈ parts, ∃ y, position part = .ok y ∧ side.Outside p y := by
  induction parts generalizing a with
  | nil =>
    cases h
    exact (and_iff_left (List.forall_mem_nil _)).symm
  | cons part rest ih =>
    rw [List.foldlM_cons] at h
    obtain ⟨found, hfound, h⟩ := bind_eq_ok_iff.1 h
    obtain ⟨y, hy, hfound⟩ := bind_eq_ok_iff.1 hfound
    cases hfound
    have hpart : (∃ z, position part = .ok z ∧ side.Outside p z) ↔ side.Outside p y := by
      constructor
      · rintro ⟨z, hz, hout⟩
        cases hy.symm.trans hz
        exact hout
      · exact fun hout => ⟨y, hy, hout⟩
    rw [ih h, outside_outer_iff, List.forall_mem_cons, hpart, and_assoc]

end LineSide

end FloatLayout
