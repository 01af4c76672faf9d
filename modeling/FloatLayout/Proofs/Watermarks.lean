import FloatLayout.Proofs.Extremes
import FloatLayout.Proofs.Reachable

/-!
# Watermarks

The record of a float keeps, for either side, how far down the floats of that side reach, counted
from the first float of the context up to this one. Clearance reads the marks of the last float
only, and a question for a flow area stops at the first float with marks above its range.

## Main definitions

- `PlacedFloat.mark`: the watermark of a side.
- `sideEnd`: the greatest block end of the floats of a side.
- `WellMarked`: the marks of every float are the greatest block ends up to it.

## Design notes

The list of a context starts with the float placed last, so "up to a float" is a suffix of the list.
Taking floats away leaves a suffix too, which is why only placing a float needs an argument.
-/

namespace FloatLayout

/-- The watermark of a side. -/
def PlacedFloat.mark (f : PlacedFloat) : LineSide → Length
  | .left => f.leftEnd
  | .right => f.rightEnd

/-- The greatest block end of a margin box among the floats of a side, or the least length if there
    is none. -/
def sideEnd (side : LineSide) (floats : List PlacedFloat) : Length :=
  ((floats.filter (·.side = side)).map (·.rect.bottom)).foldl max .least

/-- Every float keeps the greatest block ends of the floats of either side up to it. -/
def WellMarked (floats : List PlacedFloat) : Prop :=
  ∀ f rest, f :: rest <:+ floats → ∀ side, f.mark side = sideEnd side (f :: rest)

variable {side : LineSide} {f : PlacedFloat} {floats rest : List PlacedFloat} {p : Length}

theorem sideEnd_le_iff :
    sideEnd side floats ≤ p ↔ ∀ f ∈ floats, f.side = side → f.rect.bottom ≤ p := by
  rw [sideEnd, Length.foldl_max_le_iff, List.forall_mem_map]
  simp only [List.mem_filter, decide_eq_true_eq, and_imp]
  exact and_iff_right (Length.least_le p)

/-- The greatest block end depends on which floats there are, not on their order. -/
theorem sideEnd_congr {floats' : List PlacedFloat} (h : ∀ f, f ∈ floats ↔ f ∈ floats') :
    sideEnd side floats = sideEnd side floats' := by
  apply eq_of_forall_ge_iff
  intro p
  simp only [sideEnd_le_iff, h]

theorem sideEnd_mono {floats' : List PlacedFloat} (h : ∀ f ∈ floats, f ∈ floats') :
    sideEnd side floats ≤ sideEnd side floats' := by
  rw [sideEnd_le_iff]
  intro f hf hside
  exact sideEnd_le_iff.1 (le_refl _) f (h f hf) hside

theorem sideEnd_cons (f : PlacedFloat) (floats : List PlacedFloat) :
    sideEnd side (f :: floats) =
      if f.side = side then max (sideEnd side floats) f.rect.bottom else sideEnd side floats := by
  apply eq_of_forall_ge_iff
  intro p
  rw [sideEnd_le_iff, List.forall_mem_cons]
  by_cases hside : f.side = side
  · rw [if_pos hside, max_le_iff, sideEnd_le_iff, and_comm]
    simp only [hside, true_imp_iff]
  · rw [if_neg hside, sideEnd_le_iff]
    simp only [hside, false_imp_iff, true_and]

namespace PlacedFloat

@[simp] theorem follow_id (f : PlacedFloat) (last : Option PlacedFloat) :
    (f.follow last).id = f.id := by
  unfold follow
  split <;> rfl

@[simp] theorem follow_side (f : PlacedFloat) (last : Option PlacedFloat) :
    (f.follow last).side = f.side := by
  unfold follow
  split <;> rfl

@[simp] theorem follow_rect (f : PlacedFloat) (last : Option PlacedFloat) :
    (f.follow last).rect = f.rect := by
  unfold follow
  split <;> rfl

@[simp] theorem follow_shape (f : PlacedFloat) (last : Option PlacedFloat) :
    (f.follow last).shape = f.shape := by
  unfold follow
  split <;> rfl

/-- A float takes over the marks of the one before it and raises the mark of its own side. -/
theorem follow_mark (f : PlacedFloat) (last : Option PlacedFloat) (side : LineSide) :
    (f.follow last).mark side =
      if f.side = side then max ((last.map (·.mark side)).getD (f.mark side)) f.rect.bottom
      else (last.map (·.mark side)).getD (f.mark side) := by
  unfold follow
  cases hside : f.side <;> cases side <;> rfl

end PlacedFloat

namespace WellMarked

theorem nil : WellMarked [] := fun _ _ h => nomatch List.suffix_nil.1 h

theorem suffix (h : WellMarked floats) (hrest : rest <:+ floats) : WellMarked rest :=
  fun f tail htail => h f tail (htail.trans hrest)

theorem exists_suffix (hf : f ∈ floats) : ∃ rest, f :: rest <:+ floats := by
  obtain ⟨before, after, hsplit⟩ := List.append_of_mem hf
  exact ⟨after, before, hsplit.symm⟩

theorem head (h : WellMarked (f :: rest)) (side : LineSide) :
    f.mark side = sideEnd side (f :: rest) := h f rest (List.suffix_refl _) side

theorem mark_head? (h : WellMarked floats) (side : LineSide) :
    ((floats.head?.map (·.mark side)).getD .least) = sideEnd side floats := by
  cases floats with
  | nil => rfl
  | cons last rest => exact h.head side

theorem follow (h : WellMarked floats) (hleft : f.leftEnd = .least) (hright : f.rightEnd = .least) :
    WellMarked (f.follow floats.head? :: floats) := by
  have hmark : ∀ side, f.mark side = .least := fun side => by
    cases side
    · exact hleft
    · exact hright
  intro g rest hsuffix side
  rcases List.suffix_cons_iff.1 hsuffix with heq | hsuffix
  · cases heq
    rw [PlacedFloat.follow_mark, hmark, h.mark_head?, sideEnd_cons, PlacedFloat.follow_side,
      PlacedFloat.follow_rect]
  · exact h g rest hsuffix side

/-- A float that lies, with all before it, above a position has no float before it that reaches
    below the position. -/
theorem bottom_le (h : WellMarked (f :: rest)) (habove : f.AllAbove p) {g : PlacedFloat}
    (hg : g ∈ f :: rest) : g.rect.bottom ≤ p := by
  have hend : ∀ side, sideEnd side (f :: rest) ≤ p := fun side => by
    rw [← h.head side]
    cases side
    · exact habove.1
    · exact habove.2
  exact sideEnd_le_iff.1 (hend g.side) g hg rfl

theorem bottom_le_of_allAbove (h : WellMarked floats) (hf : f ∈ floats) (habove : f.AllAbove p) :
    f.rect.bottom ≤ p := by
  obtain ⟨rest, hsuffix⟩ := exists_suffix hf
  exact (h.suffix hsuffix).bottom_le habove List.mem_cons_self

/-- Marks only grow from one float to the next. -/
theorem mark_le (h : WellMarked (f :: rest)) {g : PlacedFloat} (hg : g ∈ f :: rest)
    (side : LineSide) : g.mark side ≤ f.mark side := by
  obtain ⟨after, hsuffix⟩ := exists_suffix hg
  rw [h g after hsuffix side, h.head side]
  exact sideEnd_mono fun e he => hsuffix.subset he

theorem pairwise_mark_le (h : WellMarked floats) :
    floats.Pairwise fun g f => ∀ side, f.mark side ≤ g.mark side := by
  induction floats with
  | nil => exact List.Pairwise.nil
  | cons g rest ih =>
    exact List.pairwise_cons.2 ⟨fun f hf side => h.mark_le (List.mem_cons_of_mem g hf) side,
      ih (h.suffix (List.suffix_cons g rest))⟩

/-- The floats up to the first one with marks above a position are those with a mark below it. -/
theorem mem_takeWhile_iff (h : WellMarked floats) :
    f ∈ floats.takeWhile (¬·.AllAbove p) ↔ f ∈ floats ∧ ¬f.AllAbove p := by
  have hfront : floats.Pairwise fun g f => ¬f.AllAbove p → ¬g.AllAbove p :=
    h.pairwise_mark_le.imp fun hmark => mt fun habove =>
      ⟨le_trans (hmark .left) habove.1, le_trans (hmark .right) habove.2⟩
  exact mem_takeWhile_iff_of_pairwise hfront

end WellMarked

/-- A floating box with nothing but a name. -/
def FloatBox.plain (id : Nat) (float : FloatValue) : FloatBox where
  id
  float
  rect := ⟨0, 0, 0, 0⟩
  margin := ⟨0, 0, 0, 0⟩
  border := ⟨0, 0, 0, 0⟩
  padding := ⟨0, 0, 0, 0⟩

-- ════════════════════════════════════════════════════════════════════════
-- Every history
-- ════════════════════════════════════════════════════════════════════════

namespace FloatContext

variable {c : FloatContext}

/-- The invariant of all histories: changes keep the marks of the floats right. -/
theorem Reachable.wellMarked (h : c.Reachable) : WellMarked c.floats := by
  induction h with
  | new mode => exact .nil
  | acquired pool mode =>
    rw [Pool.acquire_context]
    exact .nil
  | @changed c operation _ ih =>
    rcases operation.apply_floats c with hsuffix | ⟨f, hleft, hright, hfloats⟩
    · exact ih.suffix hsuffix
    · rw [hfloats]
      exact ih.follow hleft hright

/-- A float and those placed before it, as the part of the list that starts with it. -/
theorem drop_of_inOrder {i : Nat} (hi : i < c.inOrder.length) :
    ∃ rest, c.inOrder[i] :: rest <:+ c.floats ∧
      c.inOrder.take (i + 1) = (c.inOrder[i] :: rest).reverse := by
  have hlength : c.inOrder.length = c.floats.length := List.length_reverse
  have hindex : c.floats.length - 1 - i < c.floats.length := by omega
  have hget : c.inOrder[i] = c.floats[c.floats.length - 1 - i] := List.getElem_reverse hi
  have hdrop : c.floats.drop (c.floats.length - 1 - i) =
      c.inOrder[i] :: c.floats.drop (c.floats.length - 1 - i + 1) := by
    rw [hget]
    exact List.drop_eq_getElem_cons hindex
  refine ⟨_, hdrop ▸ List.drop_suffix _ _, ?_⟩
  rw [← hdrop, inOrder, List.take_reverse, Nat.sub_sub, Nat.add_comm 1 i]

/-- A left float, a right float that is taken away again, and then, farther down the page, a right
    float and a left float that starts above it. -/
def refilling : List Operation :=
  let place (id : Nat) (float : FloatValue) (i b inline block : Length) : Operation :=
    .add (.plain id float) ⟨.horizontalTb, i, b, inline, block⟩ .horizontalTb ⟨200, 1000⟩
  [place 1 .left 0 0 50 100, place 2 .right 150 40 50 90, .removeTrailing [2], .translate 0 10,
    place 3 .right 150 20 50 30, place 4 .left 50 5 20 30]

/-- What is left after `refilling`. -/
def refilled : FloatContext :=
  { new .horizontalTb with
    offset := ⟨0, 10⟩
    floats :=
      [⟨4, .left, ⟨50, 15, 20, 30⟩, 100, 60, none⟩, ⟨3, .right, ⟨150, 30, 50, 30⟩, 100, 60, none⟩,
        ⟨1, .left, ⟨0, 0, 50, 100⟩, 100, .least, none⟩] }

theorem refilled_reachable : refilled.Reachable := by
  have h : (new .horizontalTb).run refilling = .ok refilled := rfl
  exact (Reachable.new .horizontalTb).run h

/-- After any history, the mark of a float for a side is the greatest block end of the margin boxes
    of that side among the floats placed up to it. The marks of a side therefore never decrease from
    one float to the next, and no float reaches below the mark of its own side. -/
theorem Reachable.inOrder_mark (h : c.Reachable) :
    (∀ side i, (hi : i < c.inOrder.length) →
        c.inOrder[i].mark side = sideEnd side (c.inOrder.take (i + 1))) ∧
      (∀ side i j, (hij : i ≤ j) → (hj : j < c.inOrder.length) →
        c.inOrder[i].mark side ≤ c.inOrder[j].mark side) ∧
      ∀ f ∈ c.inOrder, f.rect.bottom ≤ f.mark f.side := by
  have hmark : ∀ side i, (hi : i < c.inOrder.length) →
      c.inOrder[i].mark side = sideEnd side (c.inOrder.take (i + 1)) := by
    intro side i hi
    obtain ⟨rest, hsuffix, htake⟩ := drop_of_inOrder hi
    rw [h.wellMarked _ rest hsuffix side, htake]
    exact sideEnd_congr fun f => List.mem_reverse.symm
  refine ⟨hmark, ?_, ?_⟩
  · intro side i j hij hj
    rw [hmark side i (by omega), hmark side j hj]
    apply sideEnd_mono
    intro f hf
    exact List.take_subset_take_left _ (by omega) hf
  · intro f hf
    obtain ⟨i, hi, rfl⟩ := List.getElem_of_mem hf
    rw [hmark _ i hi]
    exact sideEnd_le_iff.1 (le_refl _) _ (List.mem_take_iff_getElem.2 ⟨i, by omega, rfl⟩) rfl

theorem refilled_inOrder_mark :
    refilled.Reachable ∧
      (∀ side i, (hi : i < refilled.inOrder.length) →
        refilled.inOrder[i].mark side = sideEnd side (refilled.inOrder.take (i + 1))) ∧
      ∀ f ∈ refilled.inOrder, f.rect.bottom ≤ f.mark f.side := by
  obtain ⟨hmark, -, hown⟩ := Reachable.inOrder_mark refilled_reachable
  exact ⟨refilled_reachable, hmark, hown⟩

end FloatContext

end FloatLayout
