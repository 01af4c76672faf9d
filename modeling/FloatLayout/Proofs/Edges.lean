import FloatLayout.PlacedFloat
import FloatLayout.Proofs.Extremes
import FloatLayout.Proofs.Outcome

/-!
# Edges of float areas

The area of a float that is not empty has an edge in every band that does not end before it starts.
No precondition on the way to it can break, and no product leaves its word. Only the far edges of
pixel runs may do so, because the extent of a run has no bound of its own.

## Main definitions

- `PixelRun.Bounded`, `Shape.Bounded`: the far edges of pixel runs fit their word.
- `PlacedFloat.edge_succeeds`: every area that is not empty has an edge.
-/

namespace FloatLayout

variable {side : LineSide} {band : Band}

theorem Length.natAbs_sub_le (a b : Length) : (a.units - b.units).natAbs ≤ 2147483646 := by
  have := a.lower
  have := a.upper
  have := b.lower
  have := b.upper
  omega

/-- The product of two distances is less than half of what a word of 64 bits holds. -/
theorem Length.natAbs_sub_mul_sub_le (a b c d : Length) :
    ((a.units - b.units) * (c.units - d.units)).natAbs ≤ 2147483646 * 2147483646 := by
  rw [Int.natAbs_mul]
  exact Nat.mul_le_mul (natAbs_sub_le a b) (natAbs_sub_le c d)

theorem Word.fits64_of_natAbs_le {n : Int} (h : n.natAbs ≤ 2147483646 * 2147483646 * 2) :
    Word.bits64.Fits n := by
  simp only [Word.Fits, Word.limit]
  omega

theorem Length.fits64_sub (a b : Length) : Word.bits64.Fits (a.units - b.units) :=
  Word.fits64_of_natAbs_le (Nat.le_trans (natAbs_sub_le a b) (by decide))

theorem Length.fits64_sub_mul_sub (a b c d : Length) :
    Word.bits64.Fits ((a.units - b.units) * (c.units - d.units)) :=
  Word.fits64_of_natAbs_le (Nat.le_trans (natAbs_sub_mul_sub_le a b c d) (by decide))

namespace Segment

variable {s : Segment} {y : Length}

theorem crossing_succeeds (hupper : s.upper.y ≤ y) (hlower : y ≤ s.lower.y)
    (hne : s.upper.y ≠ s.lower.y) : Succeeds (s.crossing y) := by
  have hfits := Length.fits64_sub_mul_sub y s.upper.y s.lower.x s.upper.x
  refine (Succeeds.require ⟨hupper, hlower⟩).bind fun _ _ => ?_
  refine (Succeeds.require hne).bind fun _ _ => ?_
  refine Succeeds.bind ⟨_, Word.checked_eq_ok hfits⟩ fun across hx => ?_
  cases (Word.checked_eq_ok hfits).symm.trans hx
  refine Succeeds.bind ⟨_, Word.checked_eq_ok (Word.fits64_of_natAbs_le ?_)⟩ fun _ _ => .pure _
  have hacross := Length.natAbs_sub_mul_sub_le y s.upper.y s.lower.x s.upper.x
  have hquotient := Nat.le_trans (Nat.le_of_eq (Int.natAbs_tdiv
    ((y.units - s.upper.y.units) * (s.lower.x.units - s.upper.x.units))
    (s.lower.y.units - s.upper.y.units))) (Nat.div_le_self _ _)
  have := s.upper.x.lower
  have := s.upper.x.upper
  omega

/-- The part of a segment inside a band goes from where it comes in to where it goes out. -/
theorem edgeIn_eq_bind (s : Segment) (side : LineSide) (band : Band) :
    s.edgeIn side band =
      (if band.start ≤ s.upper.y then pure s.upper.x else s.crossing band.start) >>= fun first =>
        (if s.lower.y ≤ band.stop then pure s.lower.x else s.crossing band.stop) >>= fun last =>
          pure (side.outer first last) := by
  unfold edgeIn
  split <;> split <;> rfl

theorem edgeIn_succeeds (h : s.Enters band) : Succeeds (s.edgeIn side band) := by
  obtain ⟨hstart, hstop, hne⟩ := h
  rw [edgeIn_eq_bind]
  refine Succeeds.bind ?_ fun first _ => Succeeds.bind ?_ fun last _ => .pure _
  · split
    · exact .pure _
    · exact crossing_succeeds (le_of_lt (not_le.1 ‹_›)) (le_of_lt hstart) hne
  · split
    · exact .pure _
    · exact crossing_succeeds (le_of_lt hstop) (le_of_lt (not_le.1 ‹_›)) hne

end Segment

theorem Polygon.edge_succeeds {p : Polygon} (hempty : p.empty = false)
    (hband : band.start ≤ band.stop) : Succeeds (p.edge side band) := by
  refine (Succeeds.require hempty).bind fun _ _ => ?_
  refine (Succeeds.require hband).bind fun _ _ => ?_
  refine Succeeds.foldlM (fun found s hs => ?_) _
  have henters : s.Enters band := of_decide_eq_true (List.mem_filter.1 hs).2
  exact (Segment.edgeIn_succeeds henters).bind fun _ _ => .pure _

theorem CornerRadius.reach_succeeds {radius : CornerRadius Length} {y : Length}
    (h : 0 < radius.y) : Succeeds (radius.reach y) :=
  (Succeeds.require h).bind fun _ _ => .pure _

theorem SideCorners.indent_succeeds {corners : SideCorners} {box : Band}
    (hbox : box.start ≤ box.stop) (hband : band.start ≤ band.stop) :
    Succeeds (corners.indent box band) := by
  refine (Succeeds.require hbox).bind fun _ _ => ?_
  refine (Succeeds.require hband).bind fun _ _ => ?_
  split
  · next h => exact (CornerRadius.reach_succeeds h.1).bind fun _ _ => .pure _
  · split
    · next h => exact (CornerRadius.reach_succeeds h.1).bind fun _ _ => .pure _
    · exact .pure _

/-- A box that has area does not end before it starts. -/
theorem Rect.y_le_bottom {r : Rect Length} (h : ¬r.IsEmpty) : r.y ≤ r.bottom := by
  have hheight : 0 < r.height := (Decidable.not_not.1 h).2
  have := r.y.lower
  have := r.y.upper
  simp only [Rect.bottom, Length.le_def, Length.lt_def, Length.units_add, Length.units_zero] at *
  omega

theorem RoundedBox.edge_succeeds {b : RoundedBox} (hempty : ¬b.IsEmpty)
    (hband : band.start ≤ band.stop) : Succeeds (b.edge side band) := by
  unfold RoundedBox.edge
  split
  · exact .pure _
  · exact (SideCorners.indent_succeeds (Rect.y_le_bottom hempty) hband).bind fun _ _ => .pure _

/-- An ellipse that has area does not end before it starts. -/
theorem Ellipse.blockStart_le_blockEnd {e : Ellipse} (h : ¬e.IsEmpty) :
    e.blockStart ≤ e.blockEnd := by
  have hheight : 0 < e.radii.height := (Decidable.not_not.1 h).2
  simp only [Ellipse.blockStart, Ellipse.blockEnd, Length.le_def, Length.lt_def,
    Length.units_add, Length.units_sub, Length.units_zero] at *
  omega

theorem Ellipse.edge_succeeds {e : Ellipse} (hempty : ¬e.IsEmpty)
    (hband : band.start ≤ band.stop) : Succeeds (e.edge side band) :=
  (SideCorners.indent_succeeds (blockStart_le_blockEnd hempty) hband).bind fun _ _ => .pure _

/-- The far edges of a run fit their word. -/
def PixelRun.Bounded (r : PixelRun) : Prop :=
  Word.bits32.Fits (r.x.units + r.width) ∧ Word.bits32.Fits (r.y.units + r.height)

namespace PixelRun

variable {r : PixelRun}

/-- The block-end edge of a run fits its word. -/
def StopFits (r : PixelRun) : Prop := Word.bits32.Fits (r.y.units + r.height)

theorem Bounded.stopFits (h : r.Bounded) : r.StopFits := h.2

theorem right_succeeds (h : r.Bounded) : Succeeds r.right :=
  Succeeds.bind ⟨_, Word.checked_eq_ok h.1⟩ fun _ _ => .pure _

theorem bottom_succeeds (h : r.StopFits) : Succeeds r.bottom :=
  Succeeds.bind ⟨_, Word.checked_eq_ok h⟩ fun _ _ => .pure _

theorem holds_succeeds (h : r.StopFits) (target : Length) : Succeeds (r.holds target) := by
  unfold holds
  split
  · exact (bottom_succeeds h).bind fun y _ => .pure _
  · exact .pure _

theorem lineEdge_succeeds (h : r.Bounded) (side : LineSide) : Succeeds (r.lineEdge side) := by
  cases side with
  | left => exact .pure _
  | right => exact right_succeeds h

end PixelRun

namespace PixelArea

theorem firstReaching_succeeds {runs : Array PixelRun} (h : ∀ r ∈ runs, r.StopFits)
    (target : Length) (low high : Nat) : Succeeds (firstReaching runs target low high) := by
  induction hspan : high - low using Nat.strongRecOn generalizing low high with
  | ind span ih =>
    unfold firstReaching
    split
    · next hlt =>
      dsimp only
      split
      · exact .pure _
      · next run hrun =>
        refine (PixelRun.holds_succeeds (h run (Array.mem_of_getElem? hrun)) target).bind ?_
        intro found _
        split
        · exact .pure _
        · split
          · exact ih _ (by omega) _ _ rfl
          · exact ih _ (by omega) _ _ rfl
    · exact .pure _

theorem edge_succeeds {a : PixelArea} (h : ∀ r ∈ a.runs, r.Bounded)
    (hband : band.start ≤ band.stop) : Succeeds (a.edge side band) := by
  refine (Succeeds.require hband).bind fun _ _ => ?_
  refine (firstReaching_succeeds (fun r hr => (h r hr).stopFits) _ _ _).bind fun first _ => ?_
  refine Succeeds.foldlM (fun found r hr => ?_) _
  have hmem : r ∈ a.runs :=
    Array.mem_toList_iff.1 (List.mem_of_mem_drop ((List.takeWhile_sublist _).subset hr))
  exact (PixelRun.lineEdge_succeeds (h r hmem) side).bind fun _ _ => .pure _

end PixelArea

/-- The far edges of all pixel runs fit their word. -/
def Shape.Bounded : Shape → Prop
  | .pixels a => ∀ r ∈ a.runs, r.Bounded
  | .roundedBox _ | .ellipse _ | .polygon _ => True

theorem Shape.edge_succeeds {shape : Shape} (hempty : shape.isEmpty = false)
    (hbounded : shape.Bounded) (hband : band.start ≤ band.stop) :
    Succeeds (shape.edge side band) := by
  cases shape with
  | roundedBox b => exact RoundedBox.edge_succeeds (of_decide_eq_false hempty) hband
  | ellipse e => exact Ellipse.edge_succeeds (of_decide_eq_false hempty) hband
  | polygon p => exact Polygon.edge_succeeds hempty hband
  | pixels a => exact PixelArea.edge_succeeds hbounded hband

theorem PlacedFloat.edge_of_shape {f : PlacedFloat} {area : FloatArea} {shape : Shape}
    (h : f.areaShape area = some shape) (side : LineSide) (band : Band) :
    f.edge area side band =
      shape.edge side band >>= fun x => .ok (clip side (f.rect.lineEdge side) x) := by
  unfold edge
  rw [h]
  rfl

theorem PlacedFloat.edge_succeeds {f : PlacedFloat} {area : FloatArea}
    (hempty : f.isEmpty area = false) (hbounded : ∀ shape ∈ f.areaShape area, shape.Bounded)
    (hband : band.start ≤ band.stop) : Succeeds (f.edge area side band) := by
  unfold PlacedFloat.edge
  unfold PlacedFloat.isEmpty at hempty
  split at hempty
  · exact .pure _
  · next shape hshape =>
    exact (Shape.edge_succeeds hempty (hbounded shape hshape) hband).bind fun _ _ => .pure _

end FloatLayout
