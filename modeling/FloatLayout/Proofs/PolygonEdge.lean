import FloatLayout.Proofs.Edges
import FloatLayout.Proofs.Outermost

/-!
# Edges of polygons

An edge of a polygon runs through a band from where it comes in to where it goes out, and lies
between these two positions on the way, although each is rounded by itself. So the edge of a polygon
in a band is known from the two ends of each edge in it, and a band can be split at any line.

## Main definitions

- `Segment.xAt`: where an edge meets a line, without its checks.
- `Segment.outside_xAt`: an edge lies between any two of its positions.
- `Polygon.outside_edge_iff`: the edge of a polygon in a band, by the ends of its edges.
- `Polygon.edge_split`: a band shows what its parts show.
-/

namespace FloatLayout

variable {side : LineSide} {band : Band} {p x x₁ x₂ start mid stop : Length}

theorem Word.eq_of_checked_eq_ok {w : Word} {operation : WordOperation} {m n : Int}
    (h : w.checked operation n = .ok m) : m = n := (Word.checked_eq_ok_iff.1 h).2.symm

namespace Segment

variable {s : Segment} {y y₁ y₂ : Length}

/-- Where an edge that is not horizontal meets a line between its ends, rounded towards its upper
    end. -/
def xAt (s : Segment) (y : Length) : Length :=
  .clamp (s.upper.x.units + ((y.units - s.upper.y.units) * (s.lower.x.units - s.upper.x.units)).tdiv
    (s.lower.y.units - s.upper.y.units))

theorem crossing_eq_xAt (hupper : s.upper.y ≤ y) (hlower : y ≤ s.lower.y)
    (hne : s.upper.y ≠ s.lower.y) : s.crossing y = .ok (s.xAt y) := by
  obtain ⟨x, hx⟩ := crossing_succeeds hupper hlower hne
  have hsteps := hx
  obtain ⟨-, hsteps⟩ := require_bind_eq_ok_iff.1 hsteps
  obtain ⟨-, hsteps⟩ := require_bind_eq_ok_iff.1 hsteps
  obtain ⟨across, hacross, hsteps⟩ := bind_eq_ok_iff.1 hsteps
  obtain ⟨n, hn, hsteps⟩ := bind_eq_ok_iff.1 hsteps
  cases hsteps
  rw [hx, Word.eq_of_checked_eq_ok hn, Word.eq_of_checked_eq_ok hacross]
  rfl

theorem xAt_upper (s : Segment) : s.xAt s.upper.y = s.upper.x := by
  rw [xAt, Int.sub_self, Int.zero_mul, Int.zero_tdiv, Int.add_zero, Length.clamp_units]

theorem xAt_lower (hne : s.upper.y ≠ s.lower.y) : s.xAt s.lower.y = s.lower.x := by
  have hheight : s.lower.y.units - s.upper.y.units ≠ 0 := by
    rw [Ne, Length.ext_iff] at hne
    omega
  rw [xAt, Int.mul_tdiv_cancel_left _ hheight, Int.add_comm, Int.sub_add_cancel,
    Length.clamp_units]

/-- The position of an edge on a line between its ends is a length before it is clamped. -/
theorem units_xAt (hheight : s.upper.y < s.lower.y) (hupper : s.upper.y ≤ y)
    (hlower : y ≤ s.lower.y) :
    (s.xAt y).units = s.upper.x.units +
      ((y.units - s.upper.y.units) * (s.lower.x.units - s.upper.x.units)).tdiv
        (s.lower.y.units - s.upper.y.units) := by
  rw [Length.lt_def] at hheight
  rw [Length.le_def] at hupper hlower
  have hpos : 0 < s.lower.y.units - s.upper.y.units := by omega
  have hdown : 0 ≤ y.units - s.upper.y.units := by omega
  have hdown' : y.units - s.upper.y.units ≤ s.lower.y.units - s.upper.y.units := by omega
  have hwhole := Int.mul_tdiv_cancel_left (s.lower.x.units - s.upper.x.units) (Int.ne_of_gt hpos)
  have := s.upper.x.lower
  have := s.upper.x.upper
  have := s.lower.x.lower
  have := s.lower.x.upper
  -- The step from the upper end is no longer than the whole edge, so nothing leaves the range.
  rcases Int.le_total 0 (s.lower.x.units - s.upper.x.units) with halong | halong
  · have hnear := Int.tdiv_nonneg (Int.mul_nonneg hdown halong) (Int.le_of_lt hpos)
    have hfar := Int.tdiv_le_tdiv hpos (Int.mul_le_mul_of_nonneg_right hdown' halong)
    exact Length.units_clamp_of_mem (by omega) (by omega)
  · have hfar := Int.tdiv_le_tdiv hpos (Int.mul_le_mul_of_nonpos_right hdown' halong)
    have hnear := Int.tdiv_le_tdiv hpos (Int.mul_nonpos_of_nonneg_of_nonpos hdown halong)
    rw [Int.zero_tdiv] at hnear
    exact Length.units_clamp_of_mem (by omega) (by omega)

/-- Down an edge that runs to line-right, positions move to line-right, rounded or not. -/
theorem xAt_mono (hheight : s.upper.y < s.lower.y) (halong : s.upper.x ≤ s.lower.x)
    (h : y₁ ≤ y₂) : s.xAt y₁ ≤ s.xAt y₂ := by
  have hacross := Int.mul_le_mul_of_nonneg_right (Int.sub_le_sub_right h s.upper.y.units)
    (Int.sub_nonneg_of_le halong)
  have hquotient := Int.tdiv_le_tdiv (Int.sub_pos_of_lt hheight) hacross
  exact Length.clamp_le_clamp (Int.add_le_add_left hquotient _)

/-- Down an edge that runs to line-left, positions move to line-left. -/
theorem xAt_anti (hheight : s.upper.y < s.lower.y) (halong : s.lower.x ≤ s.upper.x)
    (h : y₁ ≤ y₂) : s.xAt y₂ ≤ s.xAt y₁ := by
  have hacross := Int.mul_le_mul_of_nonpos_right (Int.sub_le_sub_right h s.upper.y.units)
    (Int.sub_nonpos_of_le halong)
  have hquotient := Int.tdiv_le_tdiv (Int.sub_pos_of_lt hheight) hacross
  exact Length.clamp_le_clamp (Int.add_le_add_left hquotient _)

/-- An edge lies, on either side, between any two of its positions. -/
theorem outside_xAt (hheight : s.upper.y < s.lower.y) (h₁ : y₁ ≤ y) (h₂ : y ≤ y₂)
    (hout₁ : side.Outside p (s.xAt y₁)) (hout₂ : side.Outside p (s.xAt y₂)) :
    side.Outside p (s.xAt y) := by
  -- Down the edge, positions move to one side only.
  rcases Int.le_total s.upper.x.units s.lower.x.units with halong | halong
  · cases side with
    | left => exact le_trans hout₁ (xAt_mono hheight halong h₁)
    | right => exact le_trans (xAt_mono hheight halong h₂) hout₂
  · cases side with
    | left => exact le_trans hout₂ (xAt_anti hheight halong h₂)
    | right => exact le_trans (xAt_anti hheight halong h₁) hout₁

/-- An edge lies, on either side, between its ends. -/
theorem outside_xAt_of_ends (hheight : s.upper.y < s.lower.y) (hupper : s.upper.y ≤ y)
    (hlower : y ≤ s.lower.y) (hout : side.Outside p s.upper.x) (hout' : side.Outside p s.lower.x) :
    side.Outside p (s.xAt y) := by
  refine outside_xAt hheight hupper hlower ?_ ?_
  · rwa [s.xAt_upper]
  · rwa [xAt_lower (ne_of_lt hheight)]

/-- The line at which an edge comes into a band. -/
def entry (s : Segment) (band : Band) : Length := max band.start s.upper.y

/-- The line at which an edge goes out of a band. -/
def exit (s : Segment) (band : Band) : Length := min band.stop s.lower.y

theorem edgeIn_eq (h : s.Enters band) (side : LineSide) :
    s.edgeIn side band = .ok (side.outer (s.xAt (s.entry band)) (s.xAt (s.exit band))) := by
  obtain ⟨hstart, hstop, hne⟩ := h
  have hfirst : (if band.start ≤ s.upper.y then pure s.upper.x else s.crossing band.start) =
      (.ok (s.xAt (s.entry band)) : Except Fault Length) := by
    by_cases habove : band.start ≤ s.upper.y
    · have hentry : s.entry band = s.upper.y := if_pos habove
      rw [if_pos habove, hentry, xAt_upper]
      rfl
    · have hentry : s.entry band = band.start := if_neg habove
      rw [if_neg habove, hentry]
      exact crossing_eq_xAt (le_of_lt (not_le.1 habove)) (le_of_lt hstart) hne
  have hlast : (if s.lower.y ≤ band.stop then pure s.lower.x else s.crossing band.stop) =
      (.ok (s.xAt (s.exit band)) : Except Fault Length) := by
    by_cases hbelow : s.lower.y ≤ band.stop
    · have hexit : s.exit band = s.lower.y := by
        simp only [exit, Length.ext_iff, Length.units_min, Length.le_def] at *
        omega
      rw [if_pos hbelow, hexit, xAt_lower hne]
      rfl
    · have hexit : s.exit band = band.stop :=
        if_pos (le_of_lt (not_le.1 hbelow))
      rw [if_neg hbelow, hexit]
      exact crossing_eq_xAt (le_of_lt hstop) (le_of_lt (not_le.1 hbelow)) hne
  rw [edgeIn_eq_bind, hfirst, hlast]
  rfl

/-- `p` lies, on a side, outside of the part of an edge that is inside a band, if any is. -/
def OutsideIn (s : Segment) (side : LineSide) (p : Length) (band : Band) : Prop :=
  s.Enters band →
    side.Outside p (s.xAt (s.entry band)) ∧ side.Outside p (s.xAt (s.exit band))

/-- An edge has no more and no less inside a band than inside its two parts. -/
theorem outsideIn_split (hs : s.upper.y ≤ s.lower.y) (hmid : start ≤ mid) (hmid' : mid ≤ stop) :
    s.OutsideIn side p ⟨start, stop⟩ ↔
      s.OutsideIn side p ⟨start, mid⟩ ∧ s.OutsideIn side p ⟨mid, stop⟩ := by
  have hheight : s.upper.y ≠ s.lower.y → s.upper.y < s.lower.y := by
    simp only [Ne, Length.le_def, Length.lt_def, Length.ext_iff] at *
    omega
  constructor
  · intro h
    constructor
    · rintro ⟨hstart, hupper, hne⟩
      obtain ⟨hentry, hexit⟩ := h ⟨hstart, lt_of_lt_of_le hupper hmid', hne⟩
      refine ⟨hentry, outside_xAt (hheight hne) ?_ ?_ hentry hexit⟩ <;>
        simp only [entry, exit, Length.le_def, Length.lt_def, Length.units_max,
          Length.units_min] at * <;>
        omega
    · rintro ⟨hlower, hstop, hne⟩
      obtain ⟨hentry, hexit⟩ := h ⟨lt_of_le_of_lt hmid hlower, hstop, hne⟩
      refine ⟨outside_xAt (hheight hne) ?_ ?_ hentry hexit, hexit⟩ <;>
        simp only [entry, exit, Length.le_def, Length.lt_def, Length.units_max,
          Length.units_min] at * <;>
        omega
  · rintro ⟨hfirst, hlast⟩ ⟨hstart, hstop, hne⟩
    have hlt := hheight hne
    constructor
    · by_cases hupper : s.upper.y < mid
      · exact (hfirst ⟨hstart, hupper, hne⟩).1
      · -- The edge begins in the second part.
        have hentry : s.entry ⟨start, stop⟩ = s.entry ⟨mid, stop⟩ := by
          simp only [entry, Length.ext_iff, Length.le_def, Length.lt_def, Length.units_max] at *
          omega
        rw [hentry]
        exact (hlast ⟨lt_of_le_of_lt (not_lt.1 hupper) hlt, hstop, hne⟩).1
    · by_cases hlower : mid < s.lower.y
      · exact (hlast ⟨hlower, hstop, hne⟩).2
      · -- The edge ends in the first part.
        have hexit : s.exit ⟨start, stop⟩ = s.exit ⟨start, mid⟩ := by
          simp only [exit, Length.ext_iff, Length.le_def, Length.lt_def, Length.units_min] at *
          omega
        rw [hexit]
        exact (hfirst ⟨hstart, lt_of_lt_of_le hlt (not_lt.1 hlower), hne⟩).2

theorem upper_le_lower_between (p q : Point Length) :
    (between p q).upper.y ≤ (between p q).lower.y := by
  unfold between
  split
  · next h => exact le_of_lt h
  · next h => exact not_lt.1 h

end Segment

namespace Polygon

variable {polygon : Polygon} {s : Segment}

theorem exists_between_of_mem_edges (h : s ∈ polygon.edges) :
    ∃ q ∈ polygon.vertices, ∃ r ∈ polygon.vertices, s = .between q r := by
  obtain ⟨i, hi, rfl⟩ := List.getElem_of_mem h
  have hnext : ∀ r ∈ polygon.vertices.tail ++ polygon.vertices.take 1, r ∈ polygon.vertices := by
    intro r hr
    rcases List.mem_append.1 hr with hr | hr
    · exact List.mem_of_mem_tail hr
    · exact List.mem_of_mem_take hr
  have hedge : polygon.edges[i] = .between _ _ := List.getElem_zipWith
  exact ⟨_, List.getElem_mem _, _, hnext _ (List.getElem_mem _), hedge⟩

theorem upper_le_lower_of_mem_edges (h : s ∈ polygon.edges) : s.upper.y ≤ s.lower.y := by
  obtain ⟨q, -, r, -, rfl⟩ := exists_between_of_mem_edges h
  exact Segment.upper_le_lower_between q r

theorem mem_vertices_of_mem_edges (h : s ∈ polygon.edges) :
    s.upper ∈ polygon.vertices ∧ s.lower ∈ polygon.vertices := by
  obtain ⟨q, hq, r, hr, rfl⟩ := exists_between_of_mem_edges h
  unfold Segment.between
  split
  · exact ⟨hr, hq⟩
  · exact ⟨hq, hr⟩

theorem edge_eq_ok_iff :
    polygon.edge side band = .ok x ↔ polygon.empty = false ∧ band.start ≤ band.stop ∧
      (polygon.edges.filter (·.Enters band)).foldlM
        (fun found s => return side.outer found (← s.edgeIn side band)) side.innermost = .ok x := by
  unfold edge
  rw [require_bind_eq_ok_iff, require_bind_eq_ok_iff]

/-- The edge of a polygon in a band is the outermost of the parts of its edges inside the band. -/
theorem outside_edge_iff (h : polygon.edge side band = .ok x) :
    side.Outside p x ↔ ∀ s ∈ polygon.edges, s.OutsideIn side p band := by
  obtain ⟨-, -, h⟩ := edge_eq_ok_iff.1 h
  rw [LineSide.outside_foldlM_iff h, and_iff_right (LineSide.outside_innermost side p)]
  simp only [List.mem_filter, decide_eq_true_eq, and_imp]
  refine forall_congr' fun s => forall_congr' fun _ => forall_congr' fun henters => ?_
  rw [← LineSide.outside_outer_iff, Segment.edgeIn_eq henters]
  constructor
  · rintro ⟨y, hy, hout⟩
    cases hy
    exact hout
  · exact fun hout => ⟨_, rfl, hout⟩

/-- A band split in two at any line shows, in its two parts, the edge that it shows as a whole. -/
theorem edge_split (h : polygon.edge side ⟨start, stop⟩ = .ok x)
    (h₁ : polygon.edge side ⟨start, mid⟩ = .ok x₁) (h₂ : polygon.edge side ⟨mid, stop⟩ = .ok x₂)
    (hmid : start ≤ mid) (hmid' : mid ≤ stop) : x = side.outer x₁ x₂ := by
  refine LineSide.eq_of_outside_iff side fun p => ?_
  rw [LineSide.outside_outer_iff, outside_edge_iff h, outside_edge_iff h₁, outside_edge_iff h₂]
  constructor
  · intro hwhole
    have hparts : ∀ s ∈ polygon.edges,
        s.OutsideIn side p ⟨start, mid⟩ ∧ s.OutsideIn side p ⟨mid, stop⟩ := fun s hs =>
      (Segment.outsideIn_split (upper_le_lower_of_mem_edges hs) hmid hmid').1 (hwhole s hs)
    exact ⟨fun s hs => (hparts s hs).1, fun s hs => (hparts s hs).2⟩
  · rintro ⟨hfirst, hlast⟩ s hs
    exact (Segment.outsideIn_split (upper_le_lower_of_mem_edges hs) hmid hmid').2
      ⟨hfirst s hs, hlast s hs⟩

/-- A longer band from the same line shows at least as much. -/
theorem edge_outside_of_le (h₁ : polygon.edge side ⟨start, mid⟩ = .ok x₁)
    (h : polygon.edge side ⟨start, stop⟩ = .ok x) (hle : mid ≤ stop) : side.Outside x x₁ := by
  obtain ⟨hempty, hstart, -⟩ := edge_eq_ok_iff.1 h₁
  have hband : (⟨mid, stop⟩ : Band).start ≤ (⟨mid, stop⟩ : Band).stop := hle
  obtain ⟨x₂, h₂⟩ : Succeeds (polygon.edge side ⟨mid, stop⟩) := edge_succeeds hempty hband
  rw [edge_split h h₁ h₂ hstart hle]
  exact (LineSide.outside_outer_iff.1 (.refl side _)).1

end Polygon

end FloatLayout
