import FloatLayout.Proofs.RangeWidth

/-!
# Space freed by shapes

A shape only takes part of the margin box of its float, so content that flows around shapes has at
least the space of content that flows around margin boxes. Both are asked float by float: a float
whose shape crosses the lines of a question has a margin box that crosses them, and no edge of the
shape lies beyond the edge of the margin box.

## Main definitions

- `FloatContext.Reachable.not_isEmpty_of_shape`: a margin box without area never has a shape.
- `PlacedFloat.Counts.marginBox`: the margin box of a float whose shape counts.
- `FlowQuery.around`: a question about the shapes or about the margin boxes.
- `FloatContext.freeEdge_around`: the edges that shapes leave, beside those that margin boxes leave.

## Design notes

A shape may be larger than its margin box, in any direction. It is the clipping that confines it.
-/

namespace FloatLayout

namespace PlacedFloat

variable {f : PlacedFloat} {side : LineSide} {lines : Band} {x : Length}

theorem not_isEmpty_of_place {box : FloatBox} {dx dy : Length} {marginRect : Logical.Rect Length}
    {mode : WritingMode} {container : Size Length}
    (h : place box side dx dy marginRect mode container = .ok f) (hshape : f.shape ≠ none) :
    ¬f.rect.IsEmpty := by
  obtain ⟨rect, -, h⟩ := bind_eq_ok_iff.1 h
  dsimp only at h
  split at h
  · cases h
    exact absurd rfl hshape
  · next hrect =>
    obtain ⟨outcome, -, h⟩ := bind_eq_ok_iff.1 h
    cases outcome with
    | error failure =>
      cases h
      exact absurd rfl hshape
    | ok shape =>
      cases h
      exact hrect

theorem blockStart_marginBox_le (f : PlacedFloat) (area : FloatArea) :
    f.blockStart .marginBox ≤ f.blockStart area := by
  change f.rect.y ≤ _
  unfold blockStart
  split
  · exact le_refl _
  · exact (max_le_iff.1 (le_refl _)).1

theorem Counts.marginBox (h : f.Counts .shapeOutside lines)
    (hrect : f.shape ≠ none → ¬f.rect.IsEmpty) : f.Counts .marginBox lines := by
  obtain ⟨hfull, hend, hstart⟩ := h
  refine ⟨?_, lt_of_lt_of_le hend (f.blockEnd_le_bottom _), ?_⟩
  · cases hshape : f.shape with
    | none =>
      have harea : f.areaShape .shapeOutside = none := hshape
      unfold isEmpty at hfull ⊢
      rwa [harea] at hfull
    | some shape => exact decide_eq_false (hrect (by rw [hshape]; nofun))
  · have hle := f.blockStart_marginBox_le .shapeOutside
    simp only [Length.le_def, Length.lt_def, Length.ext_iff] at *
    omega

/-- The edge of a shape lies at the edge of the margin box or farther in. -/
theorem edge_shapeOutside_inside (h : f.edge .shapeOutside side lines = .ok x) :
    side.Outside (f.rect.lineEdge side) x := by
  cases hshape : f.areaShape .shapeOutside with
  | none =>
    unfold edge at h
    rw [hshape] at h
    cases h
    exact .refl side _
  | some shape =>
    rw [edge_of_shape hshape] at h
    obtain ⟨y, -, h⟩ := bind_eq_ok_iff.1 h
    cases h
    exact LineSide.outside_clip_iff.2 (.inl (.refl side _))

end PlacedFloat

/-- The same question about the shapes or about the margin boxes of floats. -/
def FlowQuery.around (q : FlowQuery) (area : FloatArea) : FlowQuery := { q with area }

namespace FloatContext

variable {c : FloatContext} {q : FlowQuery}

/-- In a reachable context, a float whose margin box has no area has no shape. -/
theorem Reachable.not_isEmpty_of_shape (h : c.Reachable) :
    ∀ f ∈ c.floats, f.shape ≠ none → ¬f.rect.IsEmpty := by
  refine h.forall_floats fun last hplace => ?_
  rw [PlacedFloat.follow_shape, PlacedFloat.follow_rect]
  exact PlacedFloat.not_isEmpty_of_place hplace

theorem Admits.around (h : c.Admits q) (area : FloatArea) : c.Admits (q.around area) :=
  ⟨h.mode, h.blockSize, h.inlineSize, h.checkpoint⟩

/-- The shapes of floats leave at least the space that their margin boxes leave. -/
theorem freeEdge_around (h : c.Reachable) (q : FlowQuery) (side : LineSide) :
    side.opposite.Outside (c.freeEdge (q.around .marginBox) side)
      (c.freeEdge (q.around .shapeOutside) side) := by
  obtain ⟨hcontent, hfloats⟩ := LineSide.outside_foldl_outer_iff.1
    (LineSide.Outside.refl side.opposite (c.freeEdge (q.around .marginBox) side))
  refine LineSide.outside_foldl_outer_iff.2 ⟨hcontent, fun x hx => ?_⟩
  obtain ⟨f, hf, rfl, hcounts, hedge⟩ := mem_innerEdges_iff.1 hx
  have hrect := h.not_isEmpty_of_shape f ((visible_suffix c _).subset hf)
  exact (hfloats _ (mem_innerEdges_iff.2 ⟨f, hf, rfl, hcounts.marginBox hrect, rfl⟩)).trans
    (PlacedFloat.edge_shapeOutside_inside hedge)

/-- Content that flows around shapes has at least the space that it has around margin boxes: where
    the edges that margin boxes leave do not cross, neither do those that shapes leave, and none of
    them lies farther in. -/
theorem Reachable.shapeOutside_frees (h : c.Reachable) (hadmits : c.Admits q)
    (hcontent : q.content.mode = q.mode) (hblock : c.BlockExact q)
    (hmargin : c.InlineExact (q.around .marginBox))
    (hshape : c.InlineExact (q.around .shapeOutside))
    (hruns : c.RunsBounded (q.around .shapeOutside)) :
    ∃ a b, c.flowArea (q.around .marginBox) = .ok a ∧
      c.flowArea (q.around .shapeOutside) = .ok b ∧ a.NoWider b q.container ∧
      (a.isNegative = false → b.isNegative = false) := by
  obtain ⟨a, ha, hdescribes⟩ :=
    h.exists_describes (hadmits.around .marginBox) hcontent ⟨hblock.start, hblock.stop⟩ hmargin
      (runsBounded_of_marginBox rfl)
  obtain ⟨b, hb, hdescribes'⟩ :=
    h.exists_describes (hadmits.around .shapeOutside) hcontent ⟨hblock.start, hblock.stop⟩ hshape
      hruns
  have hleft := freeEdge_around h q .left
  have hright := freeEdge_around h q .right
  refine ⟨a, b, ha, hb, hdescribes'.noWider hdescribes rfl rfl (fun _ => rfl) hleft hright, ?_⟩
  intro hnegative
  have hopen := hdescribes.isNegative_eq_false_iff.1 hnegative
  exact hdescribes'.isNegative_eq_false_iff.2 (le_trans hleft (le_trans hopen hright))

/-- Beside the margin box of the float of `outlying`, its shape takes nothing. -/
theorem outlying_shapeOutside_frees :
    outlying.Reachable ∧
      ∃ a b, outlying.flowArea (besideOutlying.around .marginBox) = .ok a ∧
        outlying.flowArea (besideOutlying.around .shapeOutside) = .ok b ∧
        a.NoWider b ⟨200, 1000⟩ ∧ b.isNegative = false ∧ a.hasFloats = true ∧
        b.hasFloats = false := by
  have hadmits : outlying.Admits besideOutlying := ⟨by decide, by decide, by decide, by decide⟩
  obtain ⟨a, b, ha, hb, hwider, hnegative⟩ :=
    outlying_reachable.shapeOutside_frees hadmits rfl ⟨rfl, fun hsize => absurd rfl hsize⟩
      ⟨fun side => by cases side <;> rfl, rfl, fun _ => rfl, nofun⟩
      ⟨fun side => by cases side <;> rfl, rfl, fun _ => rfl, nofun⟩ (outlying_runsBounded _)
  refine ⟨outlying_reachable, a, b, ha, hb, hwider, ?_⟩
  cases ha
  cases hb
  exact ⟨hnegative rfl, rfl, rfl⟩

end FloatContext

end FloatLayout
