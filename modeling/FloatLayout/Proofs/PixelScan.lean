import FloatLayout.Proofs.PixelRuns

/-!
# Scans of pixel areas

The edge of an image in a band is found by a search that relies on the order of its runs. A scan of
all runs finds the same edge, wherever the image was moved to, as long as no run has left its place
at an end of the range of lengths.

## Main definitions

- `PixelArea.scan`: the edge in a band, by all runs.
- `PixelArea.Stacked.edge_eq_scan`: the search finds what the scan finds.
- `PixelArea.Tiled`: the runs are of one height and stand apart, and start before the area ends.
- `PixelArea.ShiftAllExact`: an area was moved without coming back into the range of lengths.
- `PixelArea.StartsExact`: the same for the block positions that the runs of a mask start at.
- `PixelArea.ofMask_edge_eq_scan`: the edges of the area of a mask, wherever it was moved to.

## Design notes

That runs stand apart is said of their starts and their common height, and not of their ends. The
end of the last run may come back into the range of lengths when the area is made, and stay there
while its start moves on. The block end of the area moves as the starts do, and all runs start
before it.
-/

namespace FloatLayout.PixelArea

variable {mask : AlphaMask} {unit : Int} {threshold : Single} {content : Rect Length}
  {mode : WritingMode} {container : Size Length} {a : PixelArea} {side : LineSide} {band : Band}
  {dx dy : Length} {moves : List (Length × Length)}

/-- The outermost of the edges of all runs in a band. -/
def scan (a : PixelArea) (side : LineSide) (band : Band) : Length :=
  let inBand := a.runs.toList.filter fun r => band.start < r.stop ∧ r.y ≤ band.stop
  (inBand.map (·.far side)).foldl side.outer side.innermost

/-- A search by halving finds the edge of a stacked area in a band that a scan finds. -/
theorem Stacked.edge_eq_scan (h : a.Stacked) (hband : band.start ≤ band.stop) :
    a.edge side band = .ok (a.scan side band) := by
  obtain ⟨x, hx⟩ := edge_succeeds h.bounded hband
  have hscan : x = a.scan side band := by
    refine side.eq_of_outside_iff fun p => ?_
    rw [h.outside_edge_iff hx, scan, LineSide.outside_foldl_outer_iff,
      and_iff_right (LineSide.outside_innermost side p), List.forall_mem_map]
    simp only [List.mem_filter, Array.mem_toList_iff, decide_eq_true_iff, and_imp]
  rw [hx, hscan]

/-- All runs are `unit` high. In whole numbers, none reaches into the next, and all start before the
    area ends. -/
structure Tiled (a : PixelArea) (unit : Int) : Prop where
  height : ∀ r ∈ a.runs, r.height = unit
  y_add_le : a.runs.toList.Pairwise fun r r' => r.y.units + unit ≤ r'.y.units
  y_lt_blockEnd : ∀ r ∈ a.runs, r.y < a.blockEnd

theorem Tiled.stacked (h : a.Tiled unit) (hunit : 1 ≤ unit) (hbounded : ∀ r ∈ a.runs, r.Bounded) :
    a.Stacked where
  bounded := hbounded
  y_lt_stop r hr := by
    have hheight : 0 < r.height := by
      rw [h.height r hr]
      omega
    exact r.y_lt_stop hheight
      (lt_of_lt_of_le (h.y_lt_blockEnd r hr) (Length.le_greatest a.blockEnd))
  stop_le_y := by
    refine h.y_add_le.imp_of_mem fun {r r'} hr _ hle => ?_
    have := r'.y.lower
    rw [Length.le_def, PixelRun.stop, h.height r (Array.mem_toList_iff.1 hr), Length.units_clamp]
    omega

/-- Moving the area keeps its block positions in the range of lengths. -/
structure ShiftExact (a : PixelArea) (dy : Length) : Prop where
  y : ∀ r ∈ a.runs, (r.y + dy).units = r.y.units + dy.units
  blockEnd : ¬a.IsEmpty → (a.blockEnd + dy).units = a.blockEnd.units + dy.units

theorem not_isEmpty_of_mem {r : PixelRun} (h : r ∈ a.runs) : ¬a.IsEmpty := fun hempty =>
  Array.not_mem_empty r (hempty ▸ h)

theorem Tiled.shift (h : a.Tiled unit) (hexact : a.ShiftExact dy) : (a.shift dx dy).Tiled unit where
  height := by
    intro _ hshifted
    obtain ⟨r, hr, rfl⟩ := Array.mem_map.1 hshifted
    exact h.height r hr
  y_add_le := by
    rw [PixelArea.shift, Array.toList_map, List.pairwise_map]
    refine h.y_add_le.imp_of_mem fun {r r'} hr hr' hle => ?_
    have hy := hexact.y r (Array.mem_toList_iff.1 hr)
    have hy' := hexact.y r' (Array.mem_toList_iff.1 hr')
    rw [PixelRun.shift, PixelRun.shift, hy, hy']
    omega
  y_lt_blockEnd := by
    intro _ hshifted
    obtain ⟨r, hr, rfl⟩ := Array.mem_map.1 hshifted
    have hend := h.y_lt_blockEnd r hr
    rw [Length.lt_def] at hend ⊢
    rw [PixelRun.shift, PixelArea.shift, hexact.y r hr, hexact.blockEnd (not_isEmpty_of_mem hr)]
    omega

/-- The area moved by offsets, one after the other. -/
def shiftAll (a : PixelArea) (moves : List (Length × Length)) : PixelArea :=
  moves.foldl (fun a d => a.shift d.1 d.2) a

/-- None of the moves brings a block position back into the range of lengths. -/
def ShiftAllExact (a : PixelArea) : List (Length × Length) → Prop
  | [] => True
  | (dx, dy) :: rest => a.ShiftExact dy ∧ (a.shift dx dy).ShiftAllExact rest

theorem Tiled.shiftAll (h : a.Tiled unit) (hexact : a.ShiftAllExact moves) :
    (a.shiftAll moves).Tiled unit := by
  induction moves generalizing a with
  | nil => exact h
  | cons d rest ih => exact ih (h.shift hexact.1) hexact.2

/-- No line of a mask starts at a block position that came back into the range of lengths, or at the
    end of that range. -/
def StartsExact (mask : AlphaMask) (unit : Int) (threshold : Single) (content : Rect Length)
    (mode : WritingMode) (container : Size Length) : Prop :=
  let origin := LineRelative.point mode content.origin container
  mask.layout.WellFormed → ∀ limit, alphaLimit? threshold = some limit →
    ∀ v, mask.Spans mode.vertical limit v →
      (v.run mode unit origin).y.units = origin.y.units + (v.offset mode unit).y ∧
        (v.run mode unit origin).y < .greatest

theorem ofRuns_tiled {runs : List PixelRun} (h : ofRuns runs = .ok a) (hunit : 1 ≤ unit)
    (hheight : ∀ r ∈ runs, r.height = unit)
    (hy : runs.Pairwise fun r r' => r.y.units + unit ≤ r'.y.units)
    (hlt : ∀ r ∈ runs, r.y < .greatest) : a.Tiled unit := by
  obtain ⟨-, rfl⟩ := ofRuns_eq_ok_iff.1 h
  refine ⟨by simpa using hheight, hy, fun r hr => ?_⟩
  have hr : r ∈ runs := List.mem_toArray.1 hr
  obtain ⟨last, hlast⟩ :=
    Option.ne_none_iff_exists'.1 (mt List.getLast?_eq_none_iff.1 (List.ne_nil_of_mem hr))
  obtain ⟨hmem, hafter⟩ :=
    (getLast?_eq_some_iff_of_pairwise (fun h h' => by omega) hy).1 hlast
  have hle : r.y ≤ last.y := by
    rcases hafter r hr with rfl | hlt
    · exact le_refl _
    · rw [Length.le_def]
      omega
  have hpos : 0 < last.height := by
    rw [hheight last hmem]
    omega
  rw [hlast]
  exact lt_of_le_of_lt hle (last.y_lt_stop hpos (hlt last hmem))

theorem ofMask_tiled (h : ofMask mask unit threshold content mode container = .ok a)
    (hunit : 1 ≤ unit) (hstarts : StartsExact mask unit threshold content mode container) :
    a.Tiled unit := by
  rcases eq_empty_or_ofRuns_of_ofMask h with rfl | ⟨limit, hformed, hlimit, hruns⟩
  · exact ⟨by simp [empty], .nil, by simp [empty]⟩
  · have hlines : ∀ v ∈ mask.stackedLines mode limit, _ := fun v hv =>
      hstarts hformed limit hlimit v (AlphaMask.mem_stackedLines_iff.1 hv)
    refine ofRuns_tiled hruns hunit (List.forall_mem_map.2 fun v _ => rfl) ?_
      (List.forall_mem_map.2 fun v hv => (hlines v hv).2)
    refine List.pairwise_map.2 ((mask.stackedLines_pairwise mode limit).imp_of_mem ?_)
    intro v w hv hw hbefore
    exact hbefore.run_y_add_le (by omega) (hlines v hv).1 (hlines w hw).1

/-- Whatever offsets an image area was moved by, its edge in a band is the outermost of the edges of
    all runs that reach below the start of the band and start no later than its end. -/
theorem ofMask_edge_eq_scan (h : ofMask mask unit threshold content mode container = .ok a)
    (hunit : 1 ≤ unit) (hstarts : StartsExact mask unit threshold content mode container)
    (hmoves : a.ShiftAllExact moves) (hbounded : ∀ r ∈ (a.shiftAll moves).runs, r.Bounded)
    (side : LineSide) (hband : band.start ≤ band.stop) :
    (a.shiftAll moves).edge side band = .ok ((a.shiftAll moves).scan side band) :=
  (((ofMask_tiled h hunit hstarts).shiftAll hmoves).stacked hunit hbounded).edge_eq_scan hband

/-- Two columns with visible pixels, with a gap between them. -/
def gapped : AlphaMask := ⟨#[255, 0, 0, 255, 0, 0, 0, 255], 4, ⟨4, 2⟩⟩

/-- Bands across the area of `gapped`, from its gap on, and within the gap. -/
theorem gapped_edge_eq_scan :
    let mode := WritingMode.ofProperties .verticalRl .rtl
    let content : Rect Length := ⟨40, 20, 240, 120⟩
    let moves : List (Length × Length) := [(5, 100), (-3, -40)]
    ∃ a, ofMask gapped 60 (.finite 0) content mode ⟨300, 400⟩ = .ok a ∧
      StartsExact gapped 60 (.finite 0) content mode ⟨300, 400⟩ ∧ a.ShiftAllExact moves ∧
      (a.shiftAll moves).runs = #[⟨22, 80, 120, 60⟩, ⟨22, 260, 60, 60⟩] ∧
      (∀ r ∈ (a.shiftAll moves).runs, r.Bounded) ∧
      (a.shiftAll moves).edge .right ⟨0, 400⟩ = .ok 142 ∧
      (a.shiftAll moves).edge .right ⟨150, 400⟩ = .ok 82 ∧
      (a.shiftAll moves).edge .right ⟨150, 200⟩ = .ok .least := by
  intro mode content moves
  let a : PixelArea := ⟨#[⟨20, 20, 120, 60⟩, ⟨20, 200, 60, 60⟩], 20, 260⟩
  have harea : ofMask gapped 60 (.finite 0) content mode ⟨300, 400⟩ = .ok a := by decide +kernel
  have hstarts : StartsExact gapped 60 (.finite 0) content mode ⟨300, 400⟩ := by
    intro _ limit hlimit v hv
    have hzero : alphaLimit? (.finite 0) = some 0 := by decide +kernel
    cases hzero.symm.trans hlimit
    have hlines : gapped.visibleLines mode.vertical 0 = [⟨0, 0, 0⟩, ⟨3, 0, 1⟩] := by
      decide +kernel
    rw [← AlphaMask.mem_visibleLines_iff, hlines] at hv
    simp only [List.mem_cons, List.not_mem_nil, or_false] at hv
    rcases hv with rfl | rfl <;> exact ⟨by decide +kernel, by decide +kernel⟩
  have hmoves : a.ShiftAllExact moves := by
    refine ⟨⟨?_, ?_⟩, ⟨?_, ?_⟩, trivial⟩ <;> decide +kernel
  have hbounded : ∀ r ∈ (a.shiftAll moves).runs, r.Bounded := fun r hr =>
    PixelRun.InRange.bounded ((by decide +kernel : ∀ r ∈ (a.shiftAll moves).runs, r.InRange) r hr)
  have hedge : ∀ band : Band, band.start ≤ band.stop →
      (a.shiftAll moves).edge .right band = .ok ((a.shiftAll moves).scan .right band) :=
    fun band => ofMask_edge_eq_scan harea (by decide) hstarts hmoves hbounded .right
  exact ⟨a, harea, hstarts, hmoves, by decide +kernel, hbounded,
    (hedge _ (by decide)).trans (by decide +kernel),
    (hedge _ (by decide)).trans (by decide +kernel),
    (hedge _ (by decide)).trans (by decide +kernel)⟩

/-- Three columns, of which the last one has two visible pixels. -/
def slope : AlphaMask := ⟨#[0, 0, 255, 255, 255, 255], 3, ⟨3, 2⟩⟩

/-- The columns of `slope` come back to the least block position, all three of them, and the search
    for one that holds a position finds the second. A run that starts at the greatest position is
    found by a band there, although it does not reach below the position. -/
theorem clamped_starts_misread :
    (∃ a, ofMask slope 60 (.finite 0) ⟨1073741823, 0, 180, 120⟩ (.ofProperties .verticalRl .ltr)
        ⟨0, 0⟩ = .ok a ∧ (∀ r ∈ a.runs, r.Bounded) ∧
      a.edge .left ⟨-1073741813, -1073741813⟩ = .ok 60 ∧
      a.scan .left ⟨-1073741813, -1073741813⟩ = 0) ∧
    ∃ a, ofMask ⟨#[255], 1, ⟨1, 1⟩⟩ 60 (.finite 0) ⟨0, 1073741823, 60, 60⟩
        (.ofProperties .horizontalTb .ltr) ⟨200, 1000⟩ = .ok a ∧ (∀ r ∈ a.runs, r.Bounded) ∧
      a.edge .left ⟨.greatest, .greatest⟩ = .ok 0 ∧
      a.scan .left ⟨.greatest, .greatest⟩ = .greatest := by
  constructor
  · let a : PixelArea := ⟨#[⟨0, -1073741823, 120, 60⟩, ⟨60, -1073741823, 60, 60⟩,
      ⟨60, -1073741823, 60, 60⟩], -1073741823, -1073741763⟩
    have hranges : ∀ r ∈ a.runs, r.InRange := by decide +kernel
    exact ⟨a, by decide +kernel, fun r hr => (hranges r hr).bounded, by decide +kernel,
      by decide +kernel⟩
  · let a : PixelArea := ⟨#[⟨0, 1073741823, 60, 60⟩], 1073741823, 1073741823⟩
    have hranges : ∀ r ∈ a.runs, r.InRange := by decide +kernel
    exact ⟨a, by decide +kernel, fun r hr => (hranges r hr).bounded, by decide +kernel,
      by decide +kernel⟩

end FloatLayout.PixelArea
