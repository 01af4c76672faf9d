import FloatLayout.Proofs.PixelScan
import FloatLayout.Proofs.PolygonBands

/-!
# Bands in parts

A band split in two at any line shows, in its two parts, what it shows as a whole. For an image this
needs no more than that its runs start in order. A search for a later line then ends no earlier, and
never behind a run that starts below the line, so the runs found from the first line on are those
found up to the line of the split and those found from there on. It does not matter whether each
search finds the first run that it could.

## Main definitions

- `PixelArea.Ordered`: the runs are of one height and start in order.
- `PixelArea.firstReaching_mono`, `PixelArea.firstReaching_le_of_lt`: searches for two lines.
- `PixelArea.Ordered.mem_shown_iff_parts`: the runs in a band are those in its parts.
- `Shape.edge_of_parts`: a band shows what its parts show.
-/

namespace FloatLayout

variable {side : LineSide} {start mid stop target target' : Length}

/-- A fold over the parts of a shape gives the outermost of their positions, or else the fault that
    all parts without a position have. -/
theorem LineSide.foldlM_outer_eq {α : Type} {position : α → Except Fault Length} {far : α → Length}
    {P : α → Prop} [DecidablePred P] {fault : Fault}
    (h : ∀ a, position a = if P a then .ok (far a) else .error fault) (parts : List α)
    (x : Length) :
    parts.foldlM (fun found part => return side.outer found (← position part)) x =
      if ∀ part ∈ parts, P part then .ok ((parts.map far).foldl side.outer x)
      else .error fault := by
  induction parts generalizing x with
  | nil => rfl
  | cons part rest ih =>
    rw [List.foldlM_cons, h part]
    by_cases hpart : P part
    · rw [if_pos hpart]
      simp only [List.forall_mem_cons, hpart, true_and]
      exact ih (side.outer x (far part))
    · rw [if_neg hpart, if_neg fun hall => hpart (hall part List.mem_cons_self)]
      rfl

namespace PixelRun

/-- The edge of a run on a line side fits its word. -/
def FarFits (side : LineSide) (r : PixelRun) : Prop :=
  match side with
  | .left => True
  | .right => Word.bits32.Fits (r.x.units + r.width)

instance (side : LineSide) : DecidablePred (FarFits side) := fun r =>
  match side with
  | .left => .isTrue trivial
  | .right => inferInstanceAs (Decidable (Word.bits32.Fits (r.x.units + r.width)))

theorem lineEdge_eq_ite (r : PixelRun) :
    r.lineEdge side = if r.FarFits side then .ok (r.far side) else .error (.overflow .add) := by
  cases side with
  | left => rfl
  | right =>
    by_cases h : Word.bits32.Fits (r.x.units + r.width)
    · rw [if_pos (show r.FarFits .right from h)]
      exact bind_eq_ok_iff.2 ⟨_, Word.checked_eq_ok h, rfl⟩
    · rw [if_neg (show ¬r.FarFits .right from h)]
      have hadd : Word.checked32 .add (r.x.units + r.width) = .error (.overflow .add) :=
        Word.checked_eq_error h
      simp only [lineEdge, right, hadd]
      rfl

end PixelRun

namespace PixelArea

variable {a : PixelArea} {runs : Array PixelRun} {unit : Int} {dx dy : Length}
  {moves : List (Length × Length)} {low high i j k : Nat} {band : Band}

-- ════════════════════════════════════════════════════════════════════════
-- Searches
-- ════════════════════════════════════════════════════════════════════════

/-- A search ends between its bounds. -/
theorem firstReaching_between (hfits : ∀ r ∈ runs, r.StopFits) (hhigh : high ≤ runs.size)
    (hle : low ≤ high) (hi : firstReaching runs target low high = .ok i) : low ≤ i ∧ i ≤ high := by
  induction low, high, hhigh using firstReaching_induction hfits with
  | done low high hhigh hge =>
    rw [firstReaching_of_le hge] at hi
    cases hi
    exact ⟨hle, Nat.le_refl _⟩
  | look low high hhigh middle hmiddle hlow hlt heq hbehind hbefore =>
    rw [heq] at hi
    split at hi
    · cases hi
      exact ⟨hlow, Nat.le_of_lt hlt⟩
    · split at hi
      · have := hbehind hlt hi
        omega
      · have := hbefore hlow hi
        omega

/-- A search for a later line ends no earlier. -/
theorem firstReaching_mono (hfits : ∀ r ∈ runs, r.StopFits) (hhigh : high ≤ runs.size)
    (hle : low ≤ high) (htarget : target ≤ target')
    (hi : firstReaching runs target low high = .ok i)
    (hj : firstReaching runs target' low high = .ok j) : i ≤ j := by
  induction low, high, hhigh using firstReaching_induction hfits with
  | done low high hhigh hge =>
    rw [firstReaching_of_le hge] at hi hj
    cases hi.symm.trans hj
    exact Nat.le_refl _
  | look low high hhigh middle hmiddle hlow hlt heq hbehind hbefore =>
    rw [heq] at hi hj
    -- Where the search for the first line goes on behind the run in the middle, the other one
    -- does, and it stops there or goes on behind it where the first one stops.
    by_cases hstops : runs[middle].y ≤ target ∧ target < runs[middle].stop
    · rw [if_pos hstops] at hi
      obtain rfl : middle = i := Except.ok.inj hi
      by_cases hstops' : runs[middle].y ≤ target' ∧ target' < runs[middle].stop
      · rw [if_pos hstops'] at hj
        exact Nat.le_of_eq (Except.ok.inj hj)
      · have hstop : runs[middle].stop ≤ target' := by
          refine not_lt.1 fun hstop => hstops' ⟨?_, hstop⟩
          exact le_trans hstops.1 htarget
        have hy : runs[middle].y < target' := lt_of_le_of_lt hstops.1
          (lt_of_lt_of_le hstops.2 hstop)
        rw [if_neg hstops', if_pos hy] at hj
        have := (firstReaching_between hfits hhigh hlt hj).1
        omega
    · rw [if_neg hstops] at hi
      by_cases hy : runs[middle].y < target
      · have hstops' : ¬(runs[middle].y ≤ target' ∧ target' < runs[middle].stop) := fun h =>
          hstops ⟨le_of_lt hy, lt_of_le_of_lt htarget h.2⟩
        rw [if_pos hy] at hi
        rw [if_neg hstops', if_pos (lt_of_lt_of_le hy htarget)] at hj
        exact hbehind hlt hi hj
      · rw [if_neg hy] at hi
        have hle := (firstReaching_between hfits (Nat.le_of_lt hmiddle) hlow hi).2
        split at hj
        · exact Nat.le_trans hle (Nat.le_of_eq (Except.ok.inj hj))
        · split at hj
          · have := (firstReaching_between hfits hhigh hlt hj).1
            omega
          · exact hbefore hlow hi hj

/-- In runs that start in order, a search does not end behind a run that starts below its line. -/
theorem firstReaching_le_of_lt (hfits : ∀ r ∈ runs, r.StopFits)
    (hordered : runs.toList.Pairwise fun r r' => r.y ≤ r'.y) (hhigh : high ≤ runs.size)
    (hk : k < runs.size) (hlow : low ≤ k) (hy : target < runs[k].y)
    (hi : firstReaching runs target low high = .ok i) : i ≤ k := by
  induction low, high, hhigh using firstReaching_induction hfits with
  | done low high hhigh hge =>
    rw [firstReaching_of_le hge] at hi
    cases hi
    exact Nat.le_trans hge hlow
  | look low high hhigh middle hmiddle hmiddle' hlt heq hbehind hbefore =>
    have hends : runs[middle].y ≤ target → middle < k := by
      refine fun hle => Nat.lt_of_not_le fun hkm => ?_
      have hyy : runs[k].y ≤ runs[middle].y := by
        rcases Nat.eq_or_lt_of_le hkm with rfl | hkm
        · exact le_refl _
        · exact List.pairwise_iff_getElem.1 hordered k middle hk hmiddle hkm
      exact not_lt.2 (le_trans hyy hle) hy
    rw [heq] at hi
    split at hi
    · next hstops =>
      cases hi
      exact Nat.le_of_lt (hends hstops.1)
    · split at hi
      · next hmiddley => exact hbehind (hends (le_of_lt hmiddley)) hi
      · exact hbefore hlow hi

-- ════════════════════════════════════════════════════════════════════════
-- Areas in order
-- ════════════════════════════════════════════════════════════════════════

/-- The runs are of one height and start in order, and they end no more than half the range of a
    word below the area. -/
structure Ordered (a : PixelArea) (unit : Int) : Prop where
  height : ∀ r ∈ a.runs, r.height = unit
  y_le : a.runs.toList.Pairwise fun r r' => r.y ≤ r'.y
  y_add_le : ∀ r ∈ a.runs, r.y.units + unit ≤ a.blockEnd.units + 1073741824

namespace Ordered

theorem stopFits (h : a.Ordered unit) (hunit : 0 ≤ unit) : ∀ r ∈ a.runs, r.StopFits := by
  intro r hr
  have hend := h.y_add_le r hr
  have := r.y.lower
  have := a.blockEnd.upper
  simp only [PixelRun.StopFits, h.height r hr, Word.Fits, Word.limit]
  omega

theorem shift (h : a.Ordered unit) (hexact : a.ShiftExact dy) : (a.shift dx dy).Ordered unit where
  height := by
    intro _ hshifted
    obtain ⟨r, hr, rfl⟩ := Array.mem_map.1 hshifted
    exact h.height r hr
  y_le := by
    rw [PixelArea.shift, Array.toList_map, List.pairwise_map]
    refine h.y_le.imp fun {r r'} hle => ?_
    simp only [PixelRun.shift, Length.le_def, Length.units_add] at *
    omega
  y_add_le := by
    intro _ hshifted
    obtain ⟨r, hr, rfl⟩ := Array.mem_map.1 hshifted
    have hend := h.y_add_le r hr
    rw [PixelRun.shift, PixelArea.shift, hexact.y r hr, hexact.blockEnd (not_isEmpty_of_mem hr)]
    omega

theorem shiftAll (h : a.Ordered unit) (hexact : a.ShiftAllExact moves) :
    (a.shiftAll moves).Ordered unit := by
  induction moves generalizing a with
  | nil => exact h
  | cons d rest ih => exact ih (h.shift hexact.1) hexact.2

/-- The runs that show in a band are those that show in one of its parts. -/
theorem mem_shown_iff_parts (h : a.Ordered unit) (hunit : 0 ≤ unit) (hmid : start ≤ mid)
    (hmid' : mid ≤ stop) (hi : firstReaching a.runs start 0 a.runs.size = .ok i)
    (hj : firstReaching a.runs mid 0 a.runs.size = .ok j) {r : PixelRun} :
    r ∈ a.shown i ⟨start, stop⟩ ↔ r ∈ a.shown i ⟨start, mid⟩ ∨ r ∈ a.shown j ⟨mid, stop⟩ := by
  have hfits := h.stopFits hunit
  have hij := firstReaching_mono hfits (Nat.le_refl _) (Nat.zero_le _) hmid hi hj
  have hshown : ∀ (first : Nat) (band : Band),
      r ∈ a.shown first band ↔ r ∈ a.runs.toList.drop first ∧ r.y ≤ band.stop := by
    intro first band
    refine mem_takeWhile_iff_of_pairwise (h.y_le.sublist (List.drop_sublist _ _) |>.imp ?_)
    exact fun hle hstop => le_trans hle hstop
  simp only [hshown]
  constructor
  · rintro ⟨hr, hstop⟩
    by_cases hy : r.y ≤ mid
    · exact .inl ⟨hr, hy⟩
    · obtain ⟨k, hk, rfl⟩ := List.mem_drop_iff_getElem.1 hr
      have hle := firstReaching_le_of_lt hfits h.y_le (Nat.le_refl _)
        (by simpa [Nat.add_comm] using hk) (Nat.zero_le (i + k)) (not_le.1 hy) hj
      refine .inr ⟨List.mem_drop_iff_getElem.2 ⟨i + k - j, ?_, ?_⟩, hstop⟩
      · simpa [Nat.sub_add_cancel hle, Nat.add_comm] using hk
      · simp only [Nat.add_sub_cancel' hle]
  · rintro (⟨hr, hy⟩ | ⟨hr, hstop⟩)
    · exact ⟨hr, le_trans hy hmid'⟩
    · exact ⟨List.drop_subset_drop_left _ hij hr, hstop⟩

end Ordered

theorem ofRuns_ordered {runs : List PixelRun} (h : ofRuns runs = .ok a)
    (hheight : ∀ r ∈ runs, r.height = unit) (hy : runs.Pairwise fun r r' => r.y ≤ r'.y) :
    a.Ordered unit := by
  obtain ⟨hfits, rfl⟩ := ofRuns_eq_ok_iff.1 h
  refine ⟨by simpa using hheight, hy, fun r hr => ?_⟩
  have hr : r ∈ runs := List.mem_toArray.1 hr
  have hlast := List.getLast?_eq_some_getLast (List.ne_nil_of_mem hr)
  have hle := hy.rel_getLast_of_rel_getLast_getLast hr le_rfl
  have hend := hfits _ hlast
  rw [hlast, ← hheight _ (List.mem_of_getLast? hlast)]
  simp only [Option.map_some, Option.getD_some, PixelRun.stop, Length.units_clamp, Length.le_def,
    Word.Fits, Word.limit] at *
  omega

theorem ofMask_ordered {mask : AlphaMask} {threshold : Single} {content : Rect Length}
    {mode : WritingMode} {container : Size Length}
    (h : ofMask mask unit threshold content mode container = .ok a) (hunit : 0 ≤ unit) :
    a.Ordered unit := by
  rcases eq_empty_or_ofRuns_of_ofMask h with rfl | ⟨limit, -, -, hruns⟩
  · exact ⟨by simp [empty], .nil, by simp [empty]⟩
  · refine ofRuns_ordered hruns (List.forall_mem_map.2 fun v _ => rfl) ?_
    refine List.pairwise_map.2 ((mask.stackedLines_pairwise mode limit).imp fun hbefore => ?_)
    have hoffset := hbefore.offset_y_add_le hunit
    exact Length.clamp_le_clamp (by omega)

theorem mem_of_mem_shown {r : PixelRun} (h : r ∈ a.shown i band) : r ∈ a.runs :=
  Array.mem_toList_iff.1 (List.mem_of_mem_drop ((List.takeWhile_sublist _).subset h))

/-- The edge in a band is the outermost of the edges of the runs in it, if all of them fit. -/
theorem edge_eq_ite (hband : band.start ≤ band.stop)
    (hi : firstReaching a.runs band.start 0 a.runs.size = .ok i) :
    a.edge side band =
      if ∀ r ∈ a.shown i band, r.FarFits side then
        .ok (((a.shown i band).map (·.far side)).foldl side.outer side.innermost)
      else .error (.overflow .add) := by
  rw [← LineSide.foldlM_outer_eq fun r => PixelRun.lineEdge_eq_ite r, edge, require_of hband, hi]
  rfl

theorem Ordered.edge_succeeds (h : a.Ordered unit) (hunit : 0 ≤ unit)
    (hfar : ∀ r ∈ a.runs, r.FarFits side) (hband : band.start ≤ band.stop) :
    Succeeds (a.edge side band) := by
  obtain ⟨i, hi⟩ := firstReaching_succeeds (h.stopFits hunit) band.start 0 a.runs.size
  rw [edge_eq_ite hband hi, if_pos fun r hr => hfar r (mem_of_mem_shown hr)]
  exact .pure _

/-- A band split in two at any line shows, in its two parts, what it shows as a whole, and it shows
    no edge if one of them shows none. -/
theorem Ordered.edge_eq_parts (h : a.Ordered unit) (hunit : 0 ≤ unit) (side : LineSide)
    (hmid : start ≤ mid) (hmid' : mid ≤ stop) :
    a.edge side ⟨start, stop⟩ =
      (do return side.outer (← a.edge side ⟨start, mid⟩) (← a.edge side ⟨mid, stop⟩)) := by
  have hfits := h.stopFits hunit
  obtain ⟨i, hi⟩ := firstReaching_succeeds hfits start 0 a.runs.size
  obtain ⟨j, hj⟩ := firstReaching_succeeds hfits mid 0 a.runs.size
  have hshown := fun r => h.mem_shown_iff_parts hunit hmid hmid' hi hj (r := r)
  rw [edge_eq_ite (le_trans hmid hmid') hi, edge_eq_ite hmid hi, edge_eq_ite hmid' hj]
  simp only [hshown, or_imp, forall_and]
  by_cases hfirst : ∀ r ∈ a.shown i ⟨start, mid⟩, r.FarFits side
  · by_cases hlast : ∀ r ∈ a.shown j ⟨mid, stop⟩, r.FarFits side
    · rw [if_pos ⟨hfirst, hlast⟩, if_pos hfirst, if_pos hlast]
      refine congrArg Except.ok (side.eq_of_outside_iff fun p => ?_)
      simp only [LineSide.outside_outer_iff, LineSide.outside_foldl_outer_iff,
        LineSide.outside_innermost, true_and, List.forall_mem_map, hshown, or_imp, forall_and]
    · rw [if_neg fun hboth => hlast hboth.2, if_pos hfirst, if_neg hlast]
      rfl
  · rw [if_neg fun hboth => hfirst hboth.1, if_neg hfirst]
    rfl

end PixelArea

-- ════════════════════════════════════════════════════════════════════════
-- Shapes
-- ════════════════════════════════════════════════════════════════════════

namespace Shape

/-- A shape that shows outlines: a polygon that encloses an area, or an image whose pixels are not
    of negative size, wherever it was moved to. -/
inductive Outlined : Shape → Prop where
  | polygon {p : Polygon} (harea : p.empty = false) : Outlined (.polygon p)
  | pixels {mask : AlphaMask} {unit : Int} {threshold : Single} {content : Rect Length}
      {mode : WritingMode} {container : Size Length} {a : PixelArea}
      {moves : List (Length × Length)}
      (harea : PixelArea.ofMask mask unit threshold content mode container = .ok a)
      (hunit : 0 ≤ unit) (hmoves : a.ShiftAllExact moves) : Outlined (.pixels (a.shiftAll moves))

/-- The edges of all pixel runs on a line side fit their word. -/
def FarFits (side : LineSide) : Shape → Prop
  | .pixels a => ∀ r ∈ a.runs, r.FarFits side
  | .roundedBox _ | .ellipse _ | .polygon _ => True

/-- A band split in two at any line shows, in its two parts, what it shows as a whole. Both parts
    have an edge as long as those of all pixel runs fit their word, and where one of them has none,
    the whole band has none. -/
theorem edge_of_parts {shape : Shape} (h : shape.Outlined) (side : LineSide) (hmid : start ≤ mid)
    (hmid' : mid ≤ stop) :
    shape.edge side ⟨start, stop⟩ =
        (do return side.outer (← shape.edge side ⟨start, mid⟩) (← shape.edge side ⟨mid, stop⟩)) ∧
      (shape.FarFits side →
        Succeeds (shape.edge side ⟨start, mid⟩) ∧ Succeeds (shape.edge side ⟨mid, stop⟩)) := by
  cases h with
  | @polygon p harea =>
    have hedge : ∀ band : Band, band.start ≤ band.stop →
        p.edge side band = .ok (p.cutEdge side band) := fun _ hband => Polygon.edge_eq harea hband
    have hfirst := hedge ⟨start, mid⟩ hmid
    have hlast := hedge ⟨mid, stop⟩ hmid'
    have hwhole := hedge ⟨start, stop⟩ (le_trans hmid hmid')
    refine ⟨?_, fun _ => ⟨⟨_, hfirst⟩, ⟨_, hlast⟩⟩⟩
    rw [edge, edge, edge, hfirst, hlast, hwhole,
      Polygon.edge_split hwhole hfirst hlast hmid hmid']
    rfl
  | pixels harea hunit hmoves =>
    have hordered := (PixelArea.ofMask_ordered harea hunit).shiftAll hmoves
    refine ⟨hordered.edge_eq_parts hunit side hmid hmid', fun hfar => ?_⟩
    exact ⟨hordered.edge_succeeds hunit hfar hmid, hordered.edge_succeeds hunit hfar hmid'⟩

/-- A band with the gap of a moved image in the middle, and one from the top of an hourglass to its
    lower side. -/
theorem hourglass_gapped_edge_of_parts :
    let mode := WritingMode.ofProperties .verticalRl .rtl
    let moves : List (Length × Length) := [(5, 100), (-3, -40)]
    (∃ a, PixelArea.ofMask PixelArea.gapped 60 (.finite 0) ⟨40, 20, 240, 120⟩ mode ⟨300, 400⟩ =
        .ok a ∧ a.ShiftAllExact moves ∧
      (∀ r ∈ (a.shiftAll moves).runs, r.FarFits .right) ∧
      ∃ x₁ x₂, (a.shiftAll moves).edge .right ⟨0, 150⟩ = .ok x₁ ∧
        (a.shiftAll moves).edge .right ⟨150, 400⟩ = .ok x₂ ∧
        (a.shiftAll moves).edge .right ⟨0, 400⟩ = .ok (max x₁ x₂)) ∧
    ∃ x₁ x₂, (Polygon.ofVertices Polygon.hourglass).edge .left ⟨0, 50⟩ = .ok x₁ ∧
      (Polygon.ofVertices Polygon.hourglass).edge .left ⟨50, 100⟩ = .ok x₂ ∧
      (Polygon.ofVertices Polygon.hourglass).edge .left ⟨0, 100⟩ = .ok (min x₁ x₂) := by
  intro mode moves
  constructor
  · let a : PixelArea := ⟨#[⟨20, 20, 120, 60⟩, ⟨20, 200, 60, 60⟩], 20, 260⟩
    have harea : PixelArea.ofMask PixelArea.gapped 60 (.finite 0) ⟨40, 20, 240, 120⟩ mode
        ⟨300, 400⟩ = .ok a := by decide +kernel
    have hmoves : a.ShiftAllExact moves := by
      refine ⟨⟨?_, ?_⟩, ⟨?_, ?_⟩, trivial⟩ <;> decide +kernel
    have hfar : ∀ r ∈ (a.shiftAll moves).runs, r.FarFits .right := by decide +kernel
    obtain ⟨hwhole, hparts⟩ := edge_of_parts (.pixels harea (by decide) hmoves) .right
      (by decide : (0 : Length) ≤ 150) (by decide : (150 : Length) ≤ 400)
    obtain ⟨⟨x₁, h₁⟩, ⟨x₂, h₂⟩⟩ := hparts hfar
    rw [h₁, h₂] at hwhole
    exact ⟨a, harea, hmoves, hfar, x₁, x₂, h₁, h₂, hwhole⟩
  · have harea : (Polygon.ofVertices Polygon.hourglass).empty = false := by decide
    obtain ⟨hwhole, hparts⟩ := edge_of_parts (.polygon harea) .left
      (by decide : (0 : Length) ≤ 50) (by decide : (50 : Length) ≤ 100)
    obtain ⟨⟨x₁, h₁⟩, ⟨x₂, h₂⟩⟩ := hparts trivial
    rw [h₁, h₂] at hwhole
    exact ⟨x₁, x₂, h₁, h₂, hwhole⟩

/-- Runs of pixels of negative size stand in the reverse order, and a search for the start of a band
    goes past those inside it. -/
theorem upturned_edge_lost_in_parts :
    ∃ a, PixelArea.ofMask ⟨#[255, 255, 255], 1, ⟨1, 3⟩⟩ (-60) (.finite 0) ⟨0, 0, 60, 180⟩
        (.ofProperties .horizontalTb .ltr) ⟨200, 1000⟩ = .ok a ∧
      (pixels a).edge .left ⟨-70, 10⟩ = .ok 0 ∧
      (do return LineSide.left.outer (← (pixels a).edge .left ⟨-70, -50⟩)
            (← (pixels a).edge .left ⟨-50, 10⟩) : Except Fault Length) = .ok .greatest := by
  let a : PixelArea := ⟨#[⟨0, 0, -60, -60⟩, ⟨0, -60, -60, -60⟩, ⟨0, -120, -60, -60⟩], 0, -180⟩
  exact ⟨a, by decide +kernel, by decide +kernel, by decide +kernel⟩

end Shape

end FloatLayout
