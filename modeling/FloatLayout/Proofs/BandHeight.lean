import FloatLayout.Proofs.BandEnd

/-!
# Heights of bands

Beside margin boxes, the space of a band from a point is free over its whole height: a question for
the space that all floats leave within any height up to that of the band has the same answer. The
greatest height is no height but stands for an open range, so it only counts when the band is open.

## Main definitions

- `FlowQuery.within`: the question for all floats within a height.
-/

namespace FloatLayout

/-- The question for the space that all floats leave within a height. -/
def FlowQuery.within (q : FlowQuery) (height : Length) : FlowQuery :=
  { q with kind := .withinHeight, blockSize := height }

/-- A margin box that is not empty reaches below its start, unless both lie at the greatest
    length. -/
theorem PlacedFloat.blockStart_lt_blockEnd {f : PlacedFloat} (h : f.isEmpty .marginBox = false)
    (hstart : f.blockStart .marginBox < .greatest) :
    f.blockStart .marginBox < f.blockEnd .marginBox := by
  have hsize : ¬f.rect.IsEmpty := of_decide_eq_false h
  have hheight : 0 < f.rect.height := (Decidable.not_not.1 hsize).2
  change f.rect.y < .greatest at hstart
  change f.rect.y < f.rect.bottom
  simp only [Rect.bottom, Length.lt_def, Length.units_add, Length.units_zero,
    Length.units_greatest] at *
  omega

namespace FloatContext

variable {c : FloatContext} {q : FlowQuery} {a : FlowArea} {f : PlacedFloat}
  {height stop : Length}

theorem Admits.within (h : c.Admits q) (hheight : 0 ≤ height) : c.Admits (q.within height) :=
  ⟨h.mode, hheight, h.inlineSize, h.checkpoint⟩

/-- As long as no other floats cross a line, the floats that cross a range are those that cross its
    first line. -/
theorem counts_range_iff (harea : q.area = .marginBox) (hle : c.startOf q ≤ stop)
    (hsame : ∀ x, c.startOf q < x → x < stop → ¬c.Changes q x) (hf : f ∈ c.visible q) :
    f.Counts .marginBox ⟨c.startOf q, stop⟩ ↔
      f.Counts .marginBox ⟨c.startOf q, c.startOf q⟩ := by
  constructor
  · rintro ⟨hempty, hend, hstart⟩
    refine ⟨hempty, PlacedFloat.crosses_line.2 ⟨not_lt.1 fun hbelow => ?_, hend⟩⟩
    -- A float that starts inside the range would be a change.
    have hinside : f.blockStart .marginBox < stop := by
      rcases hstart with hinside | ⟨hat, -⟩
      · exact hinside
      · rw [hat] at hbelow
        exact absurd hbelow (lt_irrefl _)
    refine hsame _ hbelow hinside (changes_iff.2 ⟨f, hf, fun hiff => ?_⟩)
    have hreach := PlacedFloat.blockStart_lt_blockEnd hempty
      (lt_of_lt_of_le hinside (Length.le_greatest stop))
    rw [harea] at hiff
    have hcounts := hiff.1
      ⟨hempty, PlacedFloat.crosses_line.2 ⟨le_refl _, hreach⟩⟩
    exact absurd (PlacedFloat.crosses_line.1 hcounts.2).1 (not_le.2 hbelow)
  · rintro ⟨hempty, hcross⟩
    obtain ⟨hstart, hend⟩ := PlacedFloat.crosses_line.1 hcross
    refine ⟨hempty, hend, ?_⟩
    change f.blockStart .marginBox < stop ∨
      f.blockStart .marginBox = c.startOf q ∧ c.startOf q = stop
    simp only [Length.le_def, Length.lt_def, Length.ext_iff] at *
    omega

/-- No other floats cross a line within a height that the band spans. -/
theorem not_changes_within (h : c.Reachable) (hkind : q.kind = .fromPoint)
    (hspans : Spans (c.startOf q) (c.cutEnd q) a.rect.blockSize)
    (hheight : 0 ≤ height) (hle : height ≤ a.rect.blockSize)
    (hopen : height = .greatest →
      ∀ x, c.startOf q < x → x < .greatest → ¬c.Changes q x) :
    ∀ x, c.startOf q < x → x < c.stopOf (q.within height) → ¬c.Changes q x := by
  intro x hx hstop hchange
  by_cases hgreatest : height = .greatest
  · exact hopen hgreatest x hx (lt_of_lt_of_le hstop (Length.le_greatest _)) hchange
  · have hstopOf : c.stopOf (q.within height) = c.startOf q + height := if_neg hgreatest
    refine (cutEnd_firstAfter h hkind).2 x hx ?_ (.inl hchange)
    rw [hstopOf] at hstop
    rcases hspans with hsize | ⟨hend, -⟩
    · rw [hsize] at hle
      have := (c.cutEnd q).lower
      have := (c.cutEnd q).upper
      have := x.lower
      simp only [Length.le_def, Length.lt_def, Length.units_add, Length.units_sub,
        Length.units_zero] at *
      omega
    · rw [hend]
      exact lt_of_lt_of_le hstop (Length.le_greatest _)

theorem startOf_lt_greatest (h : ¬c.BelowAll q) : c.startOf q < .greatest := by
  refine not_le.1 fun hle => h fun last _ => ?_
  exact ⟨le_trans (Length.le_greatest _) hle, le_trans (Length.le_greatest _) hle⟩

/-- A band from a point of a range with height has height. -/
theorem startOf_lt_cutEnd (h : c.Reachable) (hkind : q.kind = .fromPoint)
    (hbelow : ¬c.BelowAll q) (hsize : 0 < q.blockSize) : c.startOf q < c.cutEnd q := by
  rcases (cutEnd_firstAfter h hkind).1 with hend | ⟨hlt, -⟩
  · have hstart := startOf_lt_greatest hbelow
    rw [hend, stopOf]
    split
    · exact hstart
    · have := (c.startOf q).lower
      simp only [Length.lt_def, Length.units_add, Length.units_zero, Length.units_greatest] at *
      omega
  · exact hlt

theorem scannedEdge_within (hkind : q.kind = .fromPoint) (harea : q.area = .marginBox)
    (hheight : 0 ≤ height)
    (hsame : ∀ x, c.startOf q < x → x < c.stopOf (q.within height) → ¬c.Changes q x)
    (side : LineSide) : c.scannedEdge (q.within height) side = c.scannedEdge q side := by
  have hle : c.startOf q ≤ c.stopOf (q.within height) := startOf_le_stopOf hheight
  have hlines : c.linesOf q = ⟨c.startOf q, c.startOf q⟩ := by
    rw [linesOf, hkind]
    rfl
  have hlines' : c.linesOf (q.within height) = ⟨c.startOf q, c.stopOf (q.within height)⟩ := rfl
  have harea' : (q.within height).area = .marginBox := harea
  have hvisible : c.visible (q.within height) = c.visible q := rfl
  have hcontent : (c.clearingOf (q.within height)).edgeOn side = (c.clearingOf q).edgeOn side := by
    cases side <;> rfl
  rw [scannedEdge, scannedEdge, hlines, hlines', harea, harea', hvisible, hcontent,
    innerEdges_marginBox_congr fun f hf => counts_range_iff harea hle hsame hf]

/-- If the walks for a question and for a range from its point end at the same edges, they give the
    same answer, but for the block size. -/
theorem answer_congr {t u : Clearing} (ht : (c.clearingOf (q.within height)).NarrowedTo t)
    (hu : (c.clearingOf q).NarrowedTo u) (hedge : ∀ side, t.edgeOn side = u.edgeOn side) :
    (c.answer (q.within height) t).rect.inlineStart = (c.answer q u).rect.inlineStart ∧
      (c.answer (q.within height) t).rect.inlineSize = (c.answer q u).rect.inlineSize ∧
      (c.answer (q.within height) t).hasFloats = (c.answer q u).hasFloats ∧
      (c.answer (q.within height) t).isNegative = (c.answer q u).isNegative := by
  have hleft : t.left = u.left := hedge .left
  have hright : t.right = u.right := hedge .right
  have hfloats : t.hasFloats = u.hasFloats := by
    rw [Bool.eq_iff_iff, ht.hasFloats, hu.hasFloats, hleft, hright]
    rfl
  simp only [answer, FlowArea.make, FlowQuery.within, hleft, hright, hfloats, and_self]

/-- What a band from a point beside margin boxes leaves is left within every height up to that of
    the band, and a band of a range with height has height. The greatest height asks for an open
    range, so no other floats may cross any line below. -/
theorem Reachable.flowArea_within_band (h : c.Reachable) (hkind : q.kind = .fromPoint)
    (harea : q.area = .marginBox) (ha : c.flowArea q = .ok a) :
    (∀ height, 0 ≤ height → height ≤ a.rect.blockSize →
      (height = .greatest → ∀ x, c.startOf q < x → x < .greatest → ¬c.Changes q x) →
      ∃ b, c.flowArea (q.within height) = .ok b ∧ b.rect.inlineStart = a.rect.inlineStart ∧
        b.rect.inlineSize = a.rect.inlineSize ∧ b.hasFloats = a.hasFloats ∧
        b.isNegative = a.isNegative) ∧
      (0 < q.blockSize → 0 < a.rect.blockSize) := by
  obtain ⟨hadmits, ⟨hbelow, rfl⟩ | ⟨hbelow, hcontent, -⟩⟩ := flowArea_eq_ok_iff.1 ha
  · refine ⟨fun height hheight _ _ => ?_, id⟩
    have hanswer := flowArea_eq_ok_iff.2 ⟨hadmits.within hheight, .inl ⟨hbelow, rfl⟩⟩
    exact ⟨_, hanswer, rfl, rfl, rfl, rfl⟩
  · have hruns : c.RunsBounded q := runsBounded_of_marginBox harea
    obtain ⟨t, ht, hend, hnarrowed, hedges⟩ := h.flowArea_eq_answer hadmits hcontent hruns hbelow
    cases ha.symm.trans ht
    have hspans := spans_answer hend
    refine ⟨fun height hheight hle hopen => ?_, fun hsize => ?_⟩
    · obtain ⟨t', ht', -, hnarrowed', hedges'⟩ :=
        h.flowArea_eq_answer (hadmits.within hheight) hcontent hruns hbelow
      have hsame := not_changes_within h hkind hspans hheight hle hopen
      have hedge : ∀ side, t'.edgeOn side = t.edgeOn side := fun side => by
        rw [hedges, hedges', scannedEdge_within hkind harea hheight hsame]
      exact ⟨_, ht', answer_congr (hnarrowed'.cutAll _) (hnarrowed.cutAll _) hedge⟩
    · have hlt := startOf_lt_cutEnd h hkind hbelow hsize
      rcases hspans with heq | ⟨-, heq⟩
      · rw [heq]
        simp only [Length.lt_def, Length.units_sub, Length.units_zero] at *
        omega
      · rw [heq]
        decide

theorem refilled_flowArea_within_band :
    ∃ b, refilled.flowArea ({ besideRefilled with
          blockSize := .greatest, kind := .fromPoint, area := .marginBox }.within 10) = .ok b ∧
      b.rect.inlineStart = 20 ∧ b.rect.inlineSize = 110 ∧ b.hasFloats = true ∧
      b.isNegative = false := by
  have hband : refilled.flowArea { besideRefilled with
      blockSize := .greatest, kind := .fromPoint, area := .marginBox } =
      .ok ⟨⟨besideRefilled.mode, 20, 10, 110, 10⟩, true, false⟩ := rfl
  obtain ⟨hwithin, -⟩ := refilled_reachable.flowArea_within_band rfl rfl hband
  exact hwithin 10 (by decide) (by decide) (fun h => absurd h (by decide))

/-- The context with one left float, close to the greatest block position. -/
def faraway : FloatContext :=
  { new .horizontalTb with
    floats := [⟨1, .left, ⟨0, 1073741813, 50, 5⟩, 1073741818, .least, none⟩] }

theorem faraway_reachable : faraway.Reachable := by
  have h : (new .horizontalTb).run [.add (.plain 1 .left) ⟨.horizontalTb, 0, 1073741813, 50, 5⟩
    .horizontalTb ⟨200, 1000⟩] = .ok faraway := rfl
  exact (Reachable.new .horizontalTb).run h

/-- A question for the band that ends at the float of `faraway`, which is as high as can be. -/
def aboveFaraway : FlowQuery where
  mode := .horizontalTb
  blockStart := -10
  blockSize := .greatest
  kind := .fromPoint
  area := .marginBox
  content := ⟨.horizontalTb, 0, 0, 200, 0⟩
  checkpoint := none
  container := ⟨200, 1000⟩

/-- The height of the band above the float of `faraway` is the greatest length, but a question with
    this height is open and finds the float. -/
theorem faraway_open_height :
    faraway.Reachable ∧ faraway.BlockExact aboveFaraway ∧ faraway.InlineExact aboveFaraway ∧
      faraway.InlineExact (aboveFaraway.within .greatest) ∧
      (faraway.cutEnd aboveFaraway).units =
        (faraway.startOf aboveFaraway).units + Length.greatest.units ∧
      ¬∀ a, faraway.flowArea aboveFaraway = .ok a →
        ∀ height, 0 ≤ height → height ≤ a.rect.blockSize →
          ∃ b, faraway.flowArea (aboveFaraway.within height) = .ok b ∧
            b.rect.inlineStart = a.rect.inlineStart ∧ b.rect.inlineSize = a.rect.inlineSize ∧
            b.hasFloats = a.hasFloats ∧ b.isNegative = a.isNegative := by
  refine ⟨faraway_reachable, ⟨rfl, fun hsize => absurd rfl hsize⟩,
    ⟨fun side => by cases side <;> rfl, rfl, fun _ => rfl, nofun⟩,
    ⟨fun side => by cases side <;> rfl, rfl, fun _ => rfl, nofun⟩, rfl, fun hall => ?_⟩
  have hband : faraway.flowArea aboveFaraway =
      .ok ⟨⟨.horizontalTb, 0, -10, 200, .greatest⟩, false, false⟩ := rfl
  have hopen : faraway.flowArea (aboveFaraway.within .greatest) =
      .ok ⟨⟨.horizontalTb, 50, -10, 150, .greatest⟩, true, false⟩ := rfl
  obtain ⟨b, hb, -, -, hfloats, -⟩ := hall _ hband .greatest (by decide) (by decide)
  cases hopen.symm.trans hb
  cases hfloats

end FloatContext

end FloatLayout
