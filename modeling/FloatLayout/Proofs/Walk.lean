import FloatLayout.FloatContext.FlowArea
import FloatLayout.Proofs.Edges
import FloatLayout.Proofs.Watermarks

/-!
# The walk over the floats

The walk stops early, and it cuts its range off while it tests floats against it. A plain scan does
neither: it looks at every float of the list, and tests each against the same band. Both leave the
same space.

## Main definitions

- `PlacedFloat.Counts`: a float has an area that crosses a band.
- `Clearing.scan`: the space that the floats of a list leave in a band.
- `Clearing.cuts`: the positions at which the walk cuts its range off.
- `Clearing.walk_eq_scan`: the walk is the scan, cut off at these positions.
- `Clearing.scan_spec`: the scan moves each edge to the innermost edge of a float that counts.

## Design notes

A band from a point looks at floats along its first line only, so it is scanned as a band without
height.
-/

namespace FloatLayout

namespace PlacedFloat

variable {f : PlacedFloat} {area : FloatArea} {band : Band} {y start : Length}

/-- The block range of a float crosses a band. A band without height crosses a float that starts at
    it. -/
def Crosses (f : PlacedFloat) (area : FloatArea) (band : Band) : Prop :=
  band.start < f.blockEnd area ∧
    (f.blockStart area < band.stop ∨ f.blockStart area = band.start ∧ band.start = band.stop)

instance : Decidable (f.Crosses area band) := inferInstanceAs (Decidable (_ ∧ _))

/-- The area of a float is not empty and crosses a band. -/
def Counts (f : PlacedFloat) (area : FloatArea) (band : Band) : Prop :=
  f.isEmpty area = false ∧ f.Crosses area band

instance : Decidable (f.Counts area band) := inferInstanceAs (Decidable (_ ∧ _))

/-- A line crosses a float from its block start on, its block end excluded. -/
theorem crosses_line : f.Crosses area ⟨y, y⟩ ↔ f.blockStart area ≤ y ∧ y < f.blockEnd area := by
  have hle : f.blockStart area ≤ y ↔ f.blockStart area < y ∨ f.blockStart area = y := by
    rw [Length.le_def, Length.lt_def, Length.ext_iff]
    omega
  simp only [Crosses, hle, and_true]
  exact and_comm

theorem blockEnd_le_bottom (f : PlacedFloat) (area : FloatArea) :
    f.blockEnd area ≤ f.rect.bottom := by
  unfold blockEnd
  split
  · exact le_refl _
  · exact (le_min_iff.1 (le_refl _)).1

/-- A float does not count below its margin box. -/
theorem not_counts_of_bottom_le (h : f.rect.bottom ≤ band.start) : ¬f.Counts area band := by
  rintro ⟨-, hend, -⟩
  have hbottom := lt_of_lt_of_le hend (f.blockEnd_le_bottom area)
  exact lt_irrefl _ (lt_of_lt_of_le hbottom h)

/-- Where a float cuts off a band from a point: at its start if it lies below the point, and at its
    end if the line of the point crosses it. -/
def cutAt? (f : PlacedFloat) (area : FloatArea) (start : Length) : Option Length :=
  if f.isEmpty area then none
  else if start < f.blockStart area then some (f.blockStart area)
  else if start < f.blockEnd area then some (f.blockEnd area)
  else none

theorem cutAt?_eq_some_iff {p : Length} :
    f.cutAt? area start = some p ↔ f.isEmpty area = false ∧
      (start < f.blockStart area ∧ f.blockStart area = p ∨
        f.blockStart area ≤ start ∧ start < f.blockEnd area ∧ f.blockEnd area = p) := by
  unfold cutAt?
  cases f.isEmpty area with
  | true => simp only [if_true, reduceCtorEq, Bool.true_eq_false, false_and]
  | false =>
    rw [← not_lt]
    by_cases hbelow : start < f.blockStart area
    · simp [hbelow]
    · by_cases hreach : start < f.blockEnd area
      · simp [hbelow, hreach]
      · simp [hbelow, hreach]

theorem lt_of_cutAt?_eq_some {p : Length} (h : f.cutAt? area start = some p) : start < p := by
  obtain ⟨-, ⟨hbelow, rfl⟩ | ⟨-, hreach, rfl⟩⟩ := cutAt?_eq_some_iff.1 h
  · exact hbelow
  · exact hreach

end PlacedFloat

/-- Where a question of a kind looks at floats: along the first line of its range, or in all of
    it. -/
def BandKind.lines (kind : BandKind) (range : Band) : Band where
  start := range.start
  stop := match kind with
    | .fromPoint => range.start
    | .withinHeight => range.stop

namespace Clearing

variable {kind : BandKind} {area : FloatArea} {start stop : Length} {s : Clearing}
  {floats rest : List PlacedFloat} {f : PlacedFloat} {lines : Band}

-- ════════════════════════════════════════════════════════════════════════
-- The plain scan
-- ════════════════════════════════════════════════════════════════════════

/-- The space that is left next to a float. -/
def pushFloat (area : FloatArea) (lines : Band) (s : Clearing) (f : PlacedFloat) :
    Except Fault Clearing :=
  return s.push f.side (← f.edge area f.side.opposite lines)

/-- The space that the floats of a list leave in a band: every float that counts pushes an edge. -/
def scan (area : FloatArea) (lines : Band) (floats : List PlacedFloat) (s : Clearing) :
    Except Fault Clearing :=
  (floats.filter (·.Counts area lines)).foldlM (pushFloat area lines) s

theorem scan_nil (area : FloatArea) (lines : Band) (s : Clearing) :
    scan area lines [] s = .ok s := rfl

theorem scan_cons_of_counts (h : f.Counts area lines) :
    scan area lines (f :: rest) s = pushFloat area lines s f >>= scan area lines rest := by
  simp only [scan, List.filter_cons, h, decide_true, if_true, List.foldlM_cons]
  rfl

theorem scan_cons_of_not_counts (h : ¬f.Counts area lines) :
    scan area lines (f :: rest) s = scan area lines rest s := by
  simp only [scan, List.filter_cons, h, decide_false, Bool.false_eq_true, if_false]

theorem scan_eq_self (h : ∀ f ∈ floats, ¬f.Counts area lines) :
    scan area lines floats s = .ok s := by
  have hnone : floats.filter (·.Counts area lines) = [] :=
    List.filter_eq_nil_iff.2 fun f hf => by simpa using h f hf
  rw [scan, hnone]
  rfl

/-- The space with the range cut off at every position of a list. -/
def cutAll (s : Clearing) (positions : List Length) : Clearing :=
  { s with blockEnd := positions.foldl min s.blockEnd }

theorem cutAll_append (s : Clearing) (ps qs : List Length) :
    (s.cutAll ps).cutAll qs = s.cutAll (ps ++ qs) := by
  simp only [cutAll, List.foldl_append]

theorem push_cutAll (s : Clearing) (ps : List Length) (side : LineSide) (edge : Length) :
    (s.cutAll ps).push side edge = (s.push side edge).cutAll ps := by
  cases side with
  | left => by_cases h : s.left < edge <;> simp only [push, cutAll, h, if_true, if_false]
  | right => by_cases h : edge < s.right <;> simp only [push, cutAll, h, if_true, if_false]

theorem scan_cutAll (ps : List Length) :
    scan area lines floats (s.cutAll ps) = (scan area lines floats s).map (·.cutAll ps) := by
  induction floats generalizing s with
  | nil => rfl
  | cons f rest ih =>
    by_cases hcounts : f.Counts area lines
    · rw [scan_cons_of_counts hcounts, scan_cons_of_counts hcounts]
      unfold pushFloat
      cases f.edge area f.side.opposite lines with
      | error fault => rfl
      | ok edge =>
        change scan area lines rest ((s.cutAll ps).push f.side edge) = _
        rw [push_cutAll, ih]
        rfl
    · rw [scan_cons_of_not_counts hcounts, scan_cons_of_not_counts hcounts, ih]

/-- The positions at which the walk cuts a range that starts at `start` off. -/
def cuts (kind : BandKind) (area : FloatArea) (start : Length) (floats : List PlacedFloat) :
    List Length :=
  match kind with
  | .fromPoint => (floats.takeWhile (¬·.AllAbove start)).filterMap (·.cutAt? area start)
  | .withinHeight => []

theorem cuts_cons_of_above (h : f.AllAbove start) : cuts kind area start (f :: rest) = [] := by
  cases kind <;> simp [cuts, h]

theorem cuts_cons_of_not_above (rest : List PlacedFloat) (h : ¬f.AllAbove start) :
    cuts kind area start (f :: rest) = cuts kind area start [f] ++ cuts kind area start rest := by
  cases kind <;> simp [cuts, h, List.filterMap_cons]
  split <;> rfl

theorem lt_of_mem_cuts {p : Length} (h : p ∈ cuts kind area start floats) : start < p := by
  cases kind with
  | fromPoint =>
    obtain ⟨f, -, hf⟩ := List.mem_filterMap.1 h
    exact PlacedFloat.lt_of_cutAt?_eq_some hf
  | withinHeight => cases h

theorem scan_singleton (f : PlacedFloat) :
    scan area lines [f] s = if f.Counts area lines then pushFloat area lines s f else .ok s := by
  by_cases hcounts : f.Counts area lines
  · rw [if_pos hcounts, scan_cons_of_counts hcounts]
    cases pushFloat area lines s f <;> rfl
  · rw [if_neg hcounts, scan_cons_of_not_counts hcounts, scan_nil]

/-- A range of fixed height is tested as it is. -/
theorem narrow_withinHeight :
    s.narrow .withinHeight area start f = scan area ⟨start, s.blockEnd⟩ [f] s := by
  have hmeets : s.Meets start (f.blockStart area) (f.blockEnd area) ↔
      f.Crosses area ⟨start, s.blockEnd⟩ := by
    refine and_congr_right fun _ => or_congr_right ?_
    constructor
    · rintro ⟨hfloat, hstart⟩
      exact ⟨hfloat.trans hstart.symm, hstart⟩
    · rintro ⟨hfloat, hstart⟩
      exact ⟨hfloat.trans hstart, hstart⟩
  rw [scan_singleton]
  cases hempty : f.isEmpty area with
  | true =>
    have hcounts : ¬f.Counts area ⟨start, s.blockEnd⟩ := by
      rintro ⟨hfull, -⟩
      rw [hempty] at hfull
      cases hfull
    rw [if_neg hcounts]
    simp only [narrow, hempty, if_true]
    rfl
  | false =>
    have hcounts : f.Counts area ⟨start, s.blockEnd⟩ ↔ f.Crosses area ⟨start, s.blockEnd⟩ :=
      and_iff_right hempty
    simp only [narrow, hempty, hmeets, hcounts, reduceCtorEq, and_false, Bool.false_eq_true,
      if_false]
    rfl

/-- A band from a point is tested along its first line, and it is cut off by each float on its way.
    Because it never ends before it starts, the test of its end says nothing more. -/
theorem narrow_fromPoint (hstart : start ≤ s.blockEnd) :
    s.narrow .fromPoint area start f =
      (scan area ⟨start, start⟩ [f] s).map (·.cutAll (f.cutAt? area start).toList) := by
  have hcounts : f.Counts area ⟨start, start⟩ ↔
      f.isEmpty area = false ∧ f.blockStart area ≤ start ∧ start < f.blockEnd area :=
    and_congr_right fun _ => PlacedFloat.crosses_line
  rw [scan_singleton]
  cases hempty : f.isEmpty area with
  | true =>
    simp only [narrow, PlacedFloat.cutAt?, hcounts, hempty, if_true, Bool.true_eq_false, false_and,
      if_false]
    rfl
  | false =>
    by_cases hbelow : start < f.blockStart area
    · have hle : ¬f.blockStart area ≤ start := not_le.2 hbelow
      simp only [narrow, PlacedFloat.cutAt?, hcounts, hempty, hbelow, hle, Bool.false_eq_true,
        if_false, false_and, and_false, and_self, if_true]
      rfl
    · have hle : f.blockStart area ≤ start := not_lt.1 hbelow
      have hmeets : s.Meets start (f.blockStart area) (f.blockEnd area) ↔
          start < f.blockEnd area := by
        simp only [Meets, Length.le_def, Length.lt_def, Length.ext_iff] at *
        omega
      by_cases hreach : start < f.blockEnd area
      · simp only [narrow, PlacedFloat.cutAt?, hcounts, hempty, hbelow, hle, hmeets, hreach,
          Bool.false_eq_true, if_false, false_and, and_self, if_true]
        unfold pushFloat
        cases f.edge area f.side.opposite ⟨start, start⟩ <;> rfl
      · simp only [narrow, PlacedFloat.cutAt?, hcounts, hempty, hbelow, hmeets, hreach,
          Bool.false_eq_true, if_false, false_and, and_false]
        rfl

/-- What a step of the walk does: it looks at the float along the lines of the question, and it cuts
    the range off where the float says. -/
theorem narrow_eq_scan (hstart : start ≤ s.blockEnd)
    (hstop : kind = .withinHeight → s.blockEnd = stop) (habove : ¬f.AllAbove start) :
    s.narrow kind area start f =
      (scan area (kind.lines ⟨start, stop⟩) [f] s).map (·.cutAll (cuts kind area start [f])) := by
  cases kind with
  | withinHeight =>
    rw [narrow_withinHeight, hstop rfl]
    change _ = (scan area ⟨start, stop⟩ [f] s).map id
    cases scan area ⟨start, stop⟩ [f] s <;> rfl
  | fromPoint =>
    have hcuts : cuts .fromPoint area start [f] = (f.cutAt? area start).toList := by
      simp only [cuts, List.takeWhile_cons, habove, not_false_eq_true, decide_true, if_true,
        List.takeWhile_nil, List.filterMap_cons, List.filterMap_nil]
      cases f.cutAt? area start <;> rfl
    rw [narrow_fromPoint hstart, hcuts]
    rfl

-- ════════════════════════════════════════════════════════════════════════
-- What a scan leaves
-- ════════════════════════════════════════════════════════════════════════

/-- The edge on a side. -/
def edgeOn (s : Clearing) : LineSide → Length
  | .left => s.left
  | .right => s.right

/-- The edges of a space moved inwards, and it remembers whether they did. -/
structure NarrowedTo (s t : Clearing) : Prop where
  left : s.left ≤ t.left
  right : t.right ≤ s.right
  hasFloats : t.hasFloats = true ↔ s.hasFloats = true ∨ s.left < t.left ∨ t.right < s.right

theorem NarrowedTo.refl (s : Clearing) : s.NarrowedTo s where
  left := le_refl _
  right := le_refl _
  hasFloats := by simp

theorem NarrowedTo.trans {t u : Clearing} (h : s.NarrowedTo t) (h' : t.NarrowedTo u) :
    s.NarrowedTo u where
  left := le_trans h.left h'.left
  right := le_trans h'.right h.right
  hasFloats := by
    have hleft := h.left
    have hright := h.right
    have hleft' := h'.left
    have hright' := h'.right
    rw [h'.hasFloats, h.hasFloats]
    cases s.hasFloats with
    | true => simp only [true_or]
    | false =>
      simp only [Bool.false_eq_true, false_or, Length.le_def, Length.lt_def] at *
      omega

/-- Cutting a space off leaves its edges alone. -/
theorem NarrowedTo.cutAll {t : Clearing} (h : s.NarrowedTo t) (ps : List Length) :
    s.NarrowedTo (t.cutAll ps) := ⟨h.left, h.right, h.hasFloats⟩

@[simp] theorem push_blockEnd (s : Clearing) (side : LineSide) (edge : Length) :
    (s.push side edge).blockEnd = s.blockEnd := by
  unfold push
  cases side <;> dsimp only <;> split <;> rfl

theorem push_edgeOn (s : Clearing) (side side' : LineSide) (edge : Length) :
    (s.push side edge).edgeOn side' =
      if side = side' then side'.opposite.outer (s.edgeOn side') edge else s.edgeOn side' := by
  apply Length.ext
  cases side <;> cases side' <;> unfold push <;> dsimp only <;> split <;>
    simp_all [edgeOn, LineSide.opposite, LineSide.outer, Length.lt_def] <;> omega

theorem push_narrowedTo (s : Clearing) (side : LineSide) (edge : Length) :
    s.NarrowedTo (s.push side edge) := by
  cases side with
  | left =>
    by_cases h : s.left < edge
    · simp only [push, if_pos h]
      exact ⟨le_of_lt h, le_refl _, by simp [h]⟩
    · simp only [push, if_neg h]
      exact .refl s
  | right =>
    by_cases h : edge < s.right
    · simp only [push, if_pos h]
      exact ⟨le_refl _, le_of_lt h, by simp [h]⟩
    · simp only [push, if_neg h]
      exact .refl s

end Clearing

/-- The edges, towards the other side, of the floats of a side that count. -/
def innerEdges (area : FloatArea) (lines : Band) (side : LineSide) (floats : List PlacedFloat) :
    List Length :=
  (floats.filter fun f => f.side = side ∧ f.Counts area lines).filterMap fun f =>
    (f.edge area side.opposite lines).toOption

section InnerEdges

variable {area : FloatArea} {lines lines' : Band} {side : LineSide} {f : PlacedFloat}
  {floats rest : List PlacedFloat}

theorem mem_innerEdges_iff {x : Length} :
    x ∈ innerEdges area lines side floats ↔ ∃ f ∈ floats, f.side = side ∧ f.Counts area lines ∧
      f.edge area side.opposite lines = .ok x := by
  have hok : ∀ outcome : Except Fault Length, outcome.toOption = some x ↔ outcome = .ok x := by
    intro outcome
    cases outcome with
    | error fault => exact ⟨nofun, nofun⟩
    | ok y => simp only [Except.toOption, Option.some.injEq, Except.ok.injEq]
  simp only [innerEdges, List.mem_filterMap, List.mem_filter, decide_eq_true_eq, hok, and_assoc]

theorem innerEdges_cons_of_counts {edge : Length} (h : f.Counts area lines)
    (hedge : f.edge area f.side.opposite lines = .ok edge) :
    innerEdges area lines side (f :: rest) =
      if f.side = side then edge :: innerEdges area lines side rest
      else innerEdges area lines side rest := by
  unfold innerEdges
  by_cases hside : f.side = side
  · subst hside
    simp only [List.filter_cons, h, and_self, decide_true, if_true, List.filterMap_cons, hedge]
    rfl
  · simp only [List.filter_cons, hside, false_and, decide_false, Bool.false_eq_true, if_false]

theorem innerEdges_cons_of_not_counts (h : ¬f.Counts area lines) :
    innerEdges area lines side (f :: rest) = innerEdges area lines side rest := by
  simp only [innerEdges, List.filter_cons, h, and_false, decide_false, Bool.false_eq_true, if_false]

theorem innerEdges_eq_nil (h : ∀ f ∈ floats, f.side = side → ¬f.Counts area lines) :
    innerEdges area lines side floats = [] := by
  apply List.eq_nil_iff_forall_not_mem.2
  intro x hx
  obtain ⟨f, hf, hside, hcounts, -⟩ := mem_innerEdges_iff.1 hx
  exact h f hf hside hcounts

/-- The edges of margin boxes depend on the lines only as far as it depends on them which floats
    count. -/
theorem innerEdges_marginBox_congr
    (h : ∀ f ∈ floats, f.Counts .marginBox lines ↔ f.Counts .marginBox lines') :
    innerEdges .marginBox lines side floats = innerEdges .marginBox lines' side floats := by
  have hfilter : floats.filter (fun f => f.side = side ∧ f.Counts .marginBox lines) =
      floats.filter (fun f => f.side = side ∧ f.Counts .marginBox lines') := by
    refine List.filter_congr fun f hf => ?_
    simp only [h f hf]
  have hedge : (fun f : PlacedFloat => (f.edge .marginBox side.opposite lines).toOption) =
      fun f => (f.edge .marginBox side.opposite lines').toOption := rfl
  rw [innerEdges, hfilter, hedge]
  rfl

end InnerEdges

namespace Clearing

variable {kind : BandKind} {area : FloatArea} {start stop : Length} {s t : Clearing}
  {floats rest : List PlacedFloat} {f : PlacedFloat} {lines : Band} {side : LineSide}

/-- A scan moves each edge to the innermost edge of a float of its side that counts, and leaves the
    block end alone. -/
theorem scan_spec (s : Clearing)
    (h : ∀ f ∈ floats, f.Counts area lines → Succeeds (f.edge area f.side.opposite lines)) :
    ∃ t, scan area lines floats s = .ok t ∧ t.blockEnd = s.blockEnd ∧ s.NarrowedTo t ∧
      ∀ side, t.edgeOn side =
        (innerEdges area lines side floats).foldl side.opposite.outer (s.edgeOn side) := by
  induction floats generalizing s with
  | nil => exact ⟨s, rfl, rfl, .refl s, fun side => rfl⟩
  | cons f rest ih =>
    have hrest := fun s => ih s fun g hg => h g (List.mem_cons_of_mem f hg)
    by_cases hcounts : f.Counts area lines
    · obtain ⟨edge, hedge⟩ := h f List.mem_cons_self hcounts
      obtain ⟨t, ht, hend, hnarrowed, hedges⟩ := hrest (s.push f.side edge)
      refine ⟨t, ?_, ?_, (push_narrowedTo s f.side edge).trans hnarrowed, fun side => ?_⟩
      · rw [scan_cons_of_counts hcounts, pushFloat, hedge]
        exact ht
      · rw [hend, push_blockEnd]
      · rw [hedges side, push_edgeOn, innerEdges_cons_of_counts hcounts hedge]
        split
        · rw [List.foldl_cons]
        · rfl
    · obtain ⟨t, ht, hend, hnarrowed, hedges⟩ := hrest s
      refine ⟨t, ?_, hend, hnarrowed, fun side => ?_⟩
      · rw [scan_cons_of_not_counts hcounts, ht]
      · rw [hedges side, innerEdges_cons_of_not_counts hcounts]

-- ════════════════════════════════════════════════════════════════════════
-- The whole walk
-- ════════════════════════════════════════════════════════════════════════

theorem scan_cons (f : PlacedFloat) (rest : List PlacedFloat) (s : Clearing) :
    scan area lines (f :: rest) s = scan area lines [f] s >>= scan area lines rest := by
  rw [scan_singleton]
  split
  · next h => rw [scan_cons_of_counts h]
  · next h =>
    rw [scan_cons_of_not_counts h]
    rfl

theorem scan_singleton_blockEnd (h : scan area lines [f] s = .ok t) : t.blockEnd = s.blockEnd := by
  rw [scan_singleton] at h
  split at h
  · obtain ⟨edge, -, h⟩ := bind_eq_ok_iff.1 h
    cases h
    exact push_blockEnd s f.side edge
  · cases h
    rfl

theorem scan_blockEnd (h : scan area lines floats s = .ok t) : t.blockEnd = s.blockEnd := by
  induction floats generalizing s with
  | nil =>
    cases h
    rfl
  | cons f rest ih =>
    rw [scan_cons] at h
    obtain ⟨u, hu, hrest⟩ := bind_eq_ok_iff.1 h
    rw [ih hrest, scan_singleton_blockEnd hu]

/-- No float counts below the end of all floats, so the walk misses none when it stops there. -/
theorem not_counts_of_above (hmarks : WellMarked (f :: rest)) (habove : f.AllAbove lines.start) :
    ∀ g ∈ f :: rest, ¬g.Counts area lines := by
  intro g hg
  exact PlacedFloat.not_counts_of_bottom_le (hmarks.bottom_le habove hg)

/-- The walk is the plain scan of all floats, with the range cut off on the way. -/
theorem walk_eq_scan (hmarks : WellMarked floats) (hstart : start ≤ s.blockEnd)
    (hstop : kind = .withinHeight → s.blockEnd = stop) :
    walk kind area start floats s =
      (scan area (kind.lines ⟨start, stop⟩) floats s).map
        (·.cutAll (cuts kind area start floats)) := by
  induction floats generalizing s with
  | nil => cases kind <;> rfl
  | cons f rest ih =>
    rw [walk]
    by_cases habove : f.AllAbove start
    · rw [if_pos habove, cuts_cons_of_above habove,
        scan_eq_self (not_counts_of_above hmarks habove)]
      rfl
    · rw [if_neg habove, narrow_eq_scan hstart hstop habove, cuts_cons_of_not_above rest habove,
        scan_cons f rest]
      cases hscan : scan area (kind.lines ⟨start, stop⟩) [f] s with
      | error fault => rfl
      | ok t =>
        -- The range stays open: the block end of `t` is cut at positions below its start only.
        have hend : t.blockEnd = s.blockEnd := scan_singleton_blockEnd hscan
        have hstart' : start ≤ (t.cutAll (cuts kind area start [f])).blockEnd :=
          Length.le_foldl_min_iff.2
            ⟨hend ▸ hstart, fun p hp => le_of_lt (lt_of_mem_cuts hp)⟩
        have hstop' : kind = .withinHeight →
            (t.cutAll (cuts kind area start [f])).blockEnd = stop := by
          rintro rfl
          exact hend.trans (hstop rfl)
        change walk kind area start rest (t.cutAll (cuts kind area start [f])) = _
        rw [ih (hmarks.suffix (List.suffix_cons f rest)) hstart' hstop', scan_cutAll]
        change _ = (scan area (kind.lines ⟨start, stop⟩) rest t).map _
        cases scan area (kind.lines ⟨start, stop⟩) rest t with
        | error fault => rfl
        | ok u => exact congrArg Except.ok (cutAll_append u _ _)

end Clearing

end FloatLayout
