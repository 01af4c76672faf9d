import FloatLayout.Proofs.ArcExtent
import FloatLayout.Proofs.BandSplit
import FloatLayout.Proofs.DamageHistory
import FloatLayout.Proofs.MovedShape

/-!
# Edges on the move

The edges of boxes, polygons and images follow from distances between positions, and these stay as
they are when all positions are moved by one offset. So corners draw a side in as before, a band
cuts the same edges of a polygon, and a search in an image ends at the same run.

## Main definitions

- `SideCorners.indent_moved`, `SideCorners.edge_moved`: a side that corners draw in.
- `Segment.shift`, `Polygon.cutEdge_shift`: the edge of a polygon.
- `PixelRun.ShiftExact`: moving a run keeps it in the range of lengths.
- `PixelArea.shown_shift`, `PixelArea.edge_shift`: the edge of an image.
- `PixelArea.Ranged`: the block range of an area is that of its runs.
-/

namespace FloatLayout

variable {dx dy dx' dy' : Length} {side : LineSide} {band : Band}

-- ════════════════════════════════════════════════════════════════════════
-- Lengths and bands
-- ════════════════════════════════════════════════════════════════════════

namespace Length

variable {a b d d' : Length}

theorem add_lt_add_iff (ha : (a + d).units = a.units + d.units)
    (hb : (b + d).units = b.units + d.units) : a + d < b + d ↔ a < b := by
  rw [lt_def, lt_def, ha, hb]
  omega

theorem add_le_add_iff (ha : (a + d).units = a.units + d.units)
    (hb : (b + d).units = b.units + d.units) : a + d ≤ b + d ↔ a ≤ b := by
  rw [le_def, le_def, ha, hb]
  omega

theorem add_sub_add (ha : (a + d).units = a.units + d.units)
    (hb : (b + d).units = b.units + d.units) : a + d - (b + d) = a - b := by
  rw [Length.ext_iff, units_sub, units_sub, ha, hb]
  omega

/-- Where a sum ends does not matter to a comparison with a length. -/
theorem add_le_add_add_iff {r : Length} (hr : 0 < r) (ha : (a + d).units = a.units + d.units)
    (hb : (b + d).units = b.units + d.units) : a + d ≤ b + d + r ↔ a ≤ b + r := by
  have := a.upper
  have := (a + d).upper
  have := b.lower
  have := (b + d).lower
  rw [lt_def, units_zero] at hr
  rw [le_def, le_def, units_add (b + d), units_add b r]
  omega

theorem add_sub_le_add_iff {r : Length} (hr : 0 < r) (ha : (a + d).units = a.units + d.units)
    (hb : (b + d).units = b.units + d.units) : b + d - r ≤ a + d ↔ b - r ≤ a := by
  have := a.lower
  have := (a + d).lower
  have := b.upper
  have := (b + d).upper
  rw [lt_def, units_zero] at hr
  rw [le_def, le_def, units_sub (b + d), units_sub b]
  omega

theorem add_add_eq_add (h : (a + d).units = a.units + d.units)
    (h' : (d + d').units = d.units + d'.units) : a + d + d' = a + (d + d') := by
  rw [Length.ext_iff, units_add, h, units_add a, h']
  omega

end Length

theorem Point.ShiftExact.shift_shift {p : Point Length} (h : p.ShiftExact dx dy)
    (hsum : (⟨dx, dy⟩ : Point Length).ShiftExact dx' dy') :
    (p.shift dx dy).shift dx' dy' = p.shift (dx + dx') (dy + dy') := by
  simp only [Point.shift, Length.add_add_eq_add h.x hsum.x, Length.add_add_eq_add h.y hsum.y]

theorem Band.moved_eq {range range' : Band}
    (hstart : range'.start.units = range.start.units + dy.units)
    (hstop : range'.stop.units = range.stop.units + dy.units) :
    range.MovesExactly dy ∧ range.moved dy = range' := by
  have hstart' := Length.add_eq_of_units hstart
  have hstop' := Length.add_eq_of_units hstop
  refine ⟨⟨?_, ?_⟩, ?_⟩
  · rw [hstart', hstart]
  · rw [hstop', hstop]
  · rw [moved, hstart', hstop']

-- ════════════════════════════════════════════════════════════════════════
-- Boxes and ellipses
-- ════════════════════════════════════════════════════════════════════════

/-- Corners draw the sides of a moved box in as before, in a band that is moved with it. -/
theorem SideCorners.indent_moved {corners : SideCorners} {box : Band} (hbox : box.start ≤ box.stop)
    (hband : band.start ≤ band.stop) (hbox' : box.MovesExactly dy) (hband' : band.MovesExactly dy) :
    corners.indent (box.moved dy) (band.moved dy) = corners.indent box band := by
  have hfirst : 0 < corners.start.y ∧ (box.moved dy).start ≤ (band.moved dy).stop ∧
        (band.moved dy).stop ≤ (box.moved dy).start + corners.start.y ↔
      0 < corners.start.y ∧ box.start ≤ band.stop ∧ band.stop ≤ box.start + corners.start.y :=
    and_congr_right fun hy => and_congr (Length.add_le_add_iff hbox'.start hband'.stop)
      (Length.add_le_add_add_iff hy hband'.stop hbox'.start)
  have hlast : 0 < corners.stop.y ∧ (box.moved dy).stop - corners.stop.y ≤ (band.moved dy).start ∧
        (band.moved dy).start ≤ (box.moved dy).stop ↔
      0 < corners.stop.y ∧ box.stop - corners.stop.y ≤ band.start ∧ band.start ≤ box.stop :=
    and_congr_right fun hy => and_congr (Length.add_sub_le_add_iff hy hband'.start hbox'.stop)
      (Length.add_le_add_iff hband'.start hbox'.stop)
  have hdown : (band.moved dy).stop - (box.moved dy).start = band.stop - box.start :=
    Length.add_sub_add hband'.stop hbox'.start
  have hup : (box.moved dy).stop - (band.moved dy).start = box.stop - band.start :=
    Length.add_sub_add hbox'.stop hband'.start
  rw [indent_eq (Band.moved_start_le_stop hbox dy) (Band.moved_start_le_stop hband dy),
    indent_eq hbox hband]
  simp only [hfirst, hlast, hdown, hup]

/-- A position moved inwards is within the range of lengths. -/
def LineSide.InwardExact (side : LineSide) (position distance : Length) : Prop :=
  match side with
  | .left => (position + distance).units = position.units + distance.units
  | .right => (position - distance).units = position.units - distance.units

instance (side : LineSide) (position distance : Length) :
    Decidable (side.InwardExact position distance) :=
  match side with
  | .left | .right => inferInstanceAs (Decidable (_ = _))

theorem LineSide.inward_moved {p p' distance : Length} (h : side.InwardExact p distance)
    (h' : side.InwardExact p' distance) (hp : p'.units = p.units + dx.units) :
    (side.inward p' distance).units = (side.inward p distance).units + dx.units := by
  cases side with
  | left =>
    rw [inward, inward, h, h', hp]
    omega
  | right =>
    rw [inward, inward, h, h', hp]
    omega

/-- A side that corners draw in, when the box, the band and the side are all moved. -/
theorem SideCorners.edge_moved {corners : SideCorners} {range range' : Band} {flat flat' : Length}
    (hrange : range.start ≤ range.stop) (hband : band.start ≤ band.stop)
    (hband' : band.MovesExactly dy) (hstart : range'.start.units = range.start.units + dy.units)
    (hstop : range'.stop.units = range.stop.units + dy.units)
    (hflat : flat'.units = flat.units + dx.units)
    (h : ∀ indent, corners.indent range band = .ok indent → side.InwardExact flat indent)
    (h' : ∀ indent, corners.indent range' (band.moved dy) = .ok indent →
      side.InwardExact flat' indent) :
    ∃ x x', (corners.indent range band >>= fun indent => pure (side.inward flat indent)) = .ok x ∧
      (corners.indent range' (band.moved dy) >>= fun indent =>
        pure (side.inward flat' indent)) = .ok x' ∧ x'.units = x.units + dx.units := by
  obtain ⟨hexact, rfl⟩ := Band.moved_eq hstart hstop
  obtain ⟨indent, hindent, -⟩ := corners.indent_draws hrange hband
  have hindent' := (indent_moved hrange hband hexact hband').trans hindent
  refine ⟨_, _, by rw [hindent]; rfl, by rw [hindent']; rfl, ?_⟩
  exact LineSide.inward_moved (h indent hindent) (h' indent hindent') hflat

-- ════════════════════════════════════════════════════════════════════════
-- Polygons
-- ════════════════════════════════════════════════════════════════════════

namespace Segment

variable {s : Segment} {y : Length}

/-- The edge moved by an offset. -/
def shift (s : Segment) (dx dy : Length) : Segment := ⟨s.upper.shift dx dy, s.lower.shift dx dy⟩

/-- Moving an edge keeps its ends in the range of lengths. -/
structure ShiftExact (s : Segment) (dx dy : Length) : Prop where
  upper : s.upper.ShiftExact dx dy
  lower : s.lower.ShiftExact dx dy

theorem between_shift {p q : Point Length} (hp : p.ShiftExact dx dy) (hq : q.ShiftExact dx dy) :
    between (p.shift dx dy) (q.shift dx dy) = (between p q).shift dx dy := by
  have hlt : (q.shift dx dy).y < (p.shift dx dy).y ↔ q.y < p.y := Length.add_lt_add_iff hq.y hp.y
  unfold between
  by_cases h : q.y < p.y
  · rw [if_pos h, if_pos (hlt.2 h)]
    rfl
  · rw [if_neg h, if_neg (mt hlt.1 h)]
    rfl

theorem enters_shift_iff (hs : s.ShiftExact dx dy) (hband : band.MovesExactly dy) :
    (s.shift dx dy).Enters (band.moved dy) ↔ s.Enters band := by
  have hheight : s.upper.y + dy = s.lower.y + dy ↔ s.upper.y = s.lower.y := by
    rw [Length.ext_iff, hs.upper.y, hs.lower.y, Length.ext_iff]
    omega
  exact and_congr (Length.add_lt_add_iff hband.start hs.lower.y)
    (and_congr (Length.add_lt_add_iff hs.upper.y hband.stop) (not_congr hheight))

theorem entry_shift (s : Segment) (band : Band) :
    (s.shift dx dy).entry (band.moved dy) = s.entry band + dy := by
  simp only [entry, shift, Point.shift, Band.moved, Length.ext_iff, Length.units_max,
    Length.units_add]
  omega

theorem exit_shift (s : Segment) (band : Band) :
    (s.shift dx dy).exit (band.moved dy) = s.exit band + dy := by
  simp only [exit, shift, Point.shift, Band.moved, Length.ext_iff, Length.units_min,
    Length.units_add]
  omega

/-- The position of a moved edge on a moved line depends on distances only, and these stay as they
    are. -/
theorem units_xAt_shift (hs : s.ShiftExact dx dy) (hheight : s.upper.y < s.lower.y)
    (hupper : s.upper.y ≤ y) (hlower : y ≤ s.lower.y) :
    ((s.shift dx dy).xAt (y + dy)).units = (s.xAt y).units + dx.units := by
  have hux : (s.shift dx dy).upper.x.units = s.upper.x.units + dx.units := hs.upper.x
  have huy : (s.shift dx dy).upper.y.units = s.upper.y.units + dy.units := hs.upper.y
  have hlx : (s.shift dx dy).lower.x.units = s.lower.x.units + dx.units := hs.lower.x
  have hly : (s.shift dx dy).lower.y.units = s.lower.y.units + dy.units := hs.lower.y
  have hy : (y + dy).units = y.units + dy.units := by
    have := (s.shift dx dy).upper.y.lower
    have := (s.shift dx dy).lower.y.upper
    rw [Length.le_def] at hupper hlower
    rw [Length.units_add]
    omega
  have hheight' := (Length.add_lt_add_iff hs.upper.y hs.lower.y).2 hheight
  have hupper' := (Length.add_le_add_iff hs.upper.y hy).2 hupper
  have hlower' := (Length.add_le_add_iff hy hs.lower.y).2 hlower
  rw [units_xAt hheight hupper hlower, units_xAt hheight' hupper' hlower', hux, huy, hlx, hly, hy]
  simp only [Int.add_sub_add_right]
  omega

end Segment

namespace Polygon

variable {p : Polygon}

theorem edges_shift (h : ∀ v ∈ p.vertices, v.ShiftExact dx dy) :
    (p.shift dx dy).edges = p.edges.map (·.shift dx dy) := by
  have hnext : ∀ v ∈ p.vertices.tail ++ p.vertices.take 1, v.ShiftExact dx dy := by
    intro v hv
    rcases List.mem_append.1 hv with hv | hv
    · exact h v (List.mem_of_mem_tail hv)
    · exact h v (List.mem_of_mem_take hv)
  unfold edges shift
  dsimp only
  rw [← List.map_tail, ← List.map_take, ← List.map_append, List.zipWith_map, List.map_zipWith]
  refine List.ext_getElem (by simp only [List.length_zipWith]) fun n hn _ => ?_
  rw [List.getElem_zipWith, List.getElem_zipWith]
  exact Segment.between_shift (h _ (List.getElem_mem _)) (hnext _ (List.getElem_mem _))

theorem shiftExact_of_mem_edges {s : Segment} (h : ∀ v ∈ p.vertices, v.ShiftExact dx dy)
    (hs : s ∈ p.edges) : s.ShiftExact dx dy :=
  ⟨h _ (mem_vertices_of_mem_edges hs).1, h _ (mem_vertices_of_mem_edges hs).2⟩

/-- A band that is moved with a polygon cuts the same edges, at lines that are moved with it. -/
theorem cuts_shift (h : ∀ v ∈ p.vertices, v.ShiftExact dx dy) (hband : band.MovesExactly dy) :
    (p.shift dx dy).cuts (band.moved dy) =
      (p.cuts band).map fun c => (c.1.shift dx dy, c.2 + dy) := by
  have henters : p.edges.filter (fun s => (s.shift dx dy).Enters (band.moved dy)) =
      p.edges.filter (·.Enters band) := by
    refine List.filter_congr fun s hs => decide_eq_decide.2 ?_
    exact Segment.enters_shift_iff (shiftExact_of_mem_edges h hs) hband
  rw [cuts, edges_shift h, List.filter_map, List.flatMap_map, cuts, List.map_flatMap, ← henters]
  simp only [Segment.entry_shift, Segment.exit_shift]
  rfl

theorem cutEdge_shift (h : ∀ v ∈ p.vertices, v.ShiftExact dx dy) (hband : band.start ≤ band.stop)
    (hexact : band.MovesExactly dy) (hcuts : p.cuts band ≠ []) (side : LineSide) :
    ((p.shift dx dy).cutEdge side (band.moved dy)).units =
      (p.cutEdge side band).units + dx.units := by
  rw [cutEdge, cuts_shift h hexact, List.map_map]
  refine side.foldl_outer_innermost_moved hcuts fun c hc => ?_
  obtain ⟨hheight, ⟨hupper, hlower⟩, -⟩ := between_of_mem_cuts hband hc
  exact Segment.units_xAt_shift (shiftExact_of_mem_edges h (mem_cuts_iff.1 hc).1.1) hheight hupper
    hlower

theorem Ranged.shift (h : p.Ranged) (dx dy : Length) : (p.shift dx dy).Ranged where
  between := by
    intro _ hshifted
    obtain ⟨v, hv, rfl⟩ := List.mem_map.1 hshifted
    obtain ⟨hstart, hend⟩ := h.between v hv
    simp only [Polygon.shift, Point.shift, Length.le_def, Length.units_add] at *
    omega
  start_mem := by
    obtain ⟨v, hv, hy⟩ := List.mem_map.1 h.start_mem
    rw [Polygon.shift, List.map_map, ← hy]
    exact List.mem_map_of_mem hv
  end_mem := by
    obtain ⟨v, hv, hy⟩ := List.mem_map.1 h.end_mem
    rw [Polygon.shift, List.map_map, ← hy]
    exact List.mem_map_of_mem hv

end Polygon

-- ════════════════════════════════════════════════════════════════════════
-- Pixel areas
-- ════════════════════════════════════════════════════════════════════════

namespace PixelRun

variable {r : PixelRun} {target : Length}

/-- The far edges of a run are lengths. -/
structure FarExact (r : PixelRun) : Prop where
  stop : r.stop.units = r.y.units + r.height
  right : (r.far .right).units = r.x.units + r.width

theorem FarExact.stopFits (h : r.FarExact) : r.StopFits := by
  rw [StopFits, ← h.stop]
  exact r.stop.fits

theorem FarExact.farFits (h : r.FarExact) : r.FarFits side := by
  cases side with
  | left => trivial
  | right =>
    show Word.bits32.Fits (r.x.units + r.width)
    rw [← h.right]
    exact (r.far .right).fits

/-- Moving a run keeps it in the range of lengths, with its far edges before and after. -/
structure ShiftExact (r : PixelRun) (dx dy : Length) : Prop where
  origin : (⟨r.x, r.y⟩ : Point Length).ShiftExact dx dy
  far : r.FarExact
  far_shift : (r.shift dx dy).FarExact

namespace ShiftExact

theorem units_stop (h : r.ShiftExact dx dy) :
    (r.shift dx dy).stop.units = r.stop.units + dy.units := by
  have hy : (r.shift dx dy).y.units = r.y.units + dy.units := h.origin.y
  rw [h.far_shift.stop, h.far.stop, hy]
  change r.y.units + dy.units + r.height = _
  omega

theorem units_far (h : r.ShiftExact dx dy) (side : LineSide) :
    ((r.shift dx dy).far side).units = (r.far side).units + dx.units := by
  have hx : (r.shift dx dy).x.units = r.x.units + dx.units := h.origin.x
  cases side with
  | left => exact hx
  | right =>
    rw [h.far_shift.right, h.far.right, hx]
    change r.x.units + dx.units + r.width = _
    omega

theorem holds_shift (h : r.ShiftExact dx dy)
    (htarget : (target + dy).units = target.units + dy.units) :
    (r.shift dx dy).holds (target + dy) = r.holds target := by
  have hstop : (r.shift dx dy).stop = r.stop + dy := (Length.add_eq_of_units h.units_stop).symm
  have hstop' : (r.stop + dy).units = r.stop.units + dy.units := hstop ▸ h.units_stop
  rw [holds_eq h.far_shift.stopFits, holds_eq h.far.stopFits, hstop]
  exact congrArg Except.ok (decide_eq_decide.2 (and_congr
    (Length.add_le_add_iff h.origin.y htarget) (Length.add_lt_add_iff htarget hstop')))

end ShiftExact

end PixelRun

namespace PixelArea

variable {a : PixelArea} {target : Length} {i : Nat}

/-- A search for a line that is moved with an area ends at the same run. -/
theorem firstReaching_shift (h : ∀ r ∈ a.runs, r.ShiftExact dx dy)
    (htarget : (target + dy).units = target.units + dy.units) :
    firstReaching (a.shift dx dy).runs (target + dy) 0 (a.shift dx dy).runs.size =
      firstReaching a.runs target 0 a.runs.size := by
  rw [show (a.shift dx dy).runs.size = a.runs.size from Array.size_map]
  exact firstReaching_map (f := (·.shift dx dy)) (fun r hr => (h r hr).holds_shift htarget)
    (fun r hr => Length.add_lt_add_iff (h r hr).origin.y htarget) 0 _

/-- A band that is moved with an area holds the same runs. -/
theorem shown_shift (h : ∀ r ∈ a.runs, r.ShiftExact dx dy) (hband : band.MovesExactly dy) :
    (a.shift dx dy).shown i (band.moved dy) = (a.shown i band).map (·.shift dx dy) := by
  rw [shown, shift, Array.toList_map, ← List.map_drop, List.takeWhile_map]
  refine congrArg _ (takeWhile_congr fun r hr => decide_eq_decide.2 ?_)
  have hr : r ∈ a.runs := Array.mem_toList_iff.1 (List.mem_of_mem_drop hr)
  exact Length.add_le_add_iff (h r hr).origin.y hband.stop

/-- The edge of an area in a band, when the far edges of its runs are lengths. -/
theorem edge_eq (h : ∀ r ∈ a.runs, r.FarExact) (hband : band.start ≤ band.stop)
    (hi : firstReaching a.runs band.start 0 a.runs.size = .ok i) :
    a.edge side band =
      .ok (((a.shown i band).map (·.far side)).foldl side.outer side.innermost) := by
  rw [edge_eq_ite hband hi, if_pos fun r hr => (h r (mem_of_mem_shown hr)).farFits]

/-- The edge of an area that is moved with a band. -/
theorem edge_shift (h : ∀ r ∈ a.runs, r.ShiftExact dx dy) (hband : band.start ≤ band.stop)
    (hexact : band.MovesExactly dy)
    (hi : firstReaching a.runs band.start 0 a.runs.size = .ok i) :
    (a.shift dx dy).edge side (band.moved dy) =
      .ok (((a.shown i band).map fun r => (r.shift dx dy).far side).foldl side.outer
        side.innermost) := by
  have hfar : ∀ r ∈ (a.shift dx dy).runs, r.FarExact := by
    intro _ hshifted
    obtain ⟨r, hr, rfl⟩ := Array.mem_map.1 hshifted
    exact (h r hr).far_shift
  have hi' := (firstReaching_shift h hexact.start).trans hi
  rw [edge_eq hfar (Band.moved_start_le_stop hband dy) hi', shown_shift h hexact, List.map_map]
  rfl

/-- The block range of an area goes from where its first run starts to where its last one ends. No
    run lies outside of it, unless runs are of negative height. -/
structure Ranged (a : PixelArea) : Prop where
  start_eq : ∀ first ∈ a.runs.toList.head?, a.blockStart = first.y
  end_eq : ∀ last ∈ a.runs.toList.getLast?, a.blockEnd = last.stop
  between : (∀ r ∈ a.runs, 0 ≤ r.height) →
    ∀ r ∈ a.runs, a.blockStart ≤ r.y ∧ r.stop ≤ a.blockEnd

/-- The ends of the range of an area that has any pixels. -/
theorem Ranged.exists_ends (h : a.Ranged) (harea : ¬a.IsEmpty) :
    ∃ first ∈ a.runs, ∃ last ∈ a.runs, a.runs.toList.head? = some first ∧
      a.runs.toList.getLast? = some last ∧ a.blockStart = first.y ∧ a.blockEnd = last.stop := by
  have hne : a.runs.toList ≠ [] := mt Array.toList_eq_nil_iff.1 harea
  obtain ⟨first, hfirst⟩ := Option.ne_none_iff_exists'.1 (mt List.head?_eq_none_iff.1 hne)
  obtain ⟨last, hlast⟩ := Option.ne_none_iff_exists'.1 (mt List.getLast?_eq_none_iff.1 hne)
  exact ⟨first, Array.mem_toList_iff.1 (List.mem_of_head? hfirst), last,
    Array.mem_toList_iff.1 (List.mem_of_getLast? hlast), hfirst, hlast, h.start_eq first hfirst,
    h.end_eq last hlast⟩

theorem Ranged.shift_exact (h : a.Ranged) (harea : ¬a.IsEmpty)
    (hexact : ∀ r ∈ a.runs, r.ShiftExact dx dy) :
    (a.blockStart + dy).units = a.blockStart.units + dy.units ∧
      (a.blockEnd + dy).units = a.blockEnd.units + dy.units := by
  obtain ⟨first, hfirst, last, hlast, -, -, hstart, hend⟩ := h.exists_ends harea
  rw [hstart, hend]
  refine ⟨(hexact first hfirst).origin.y, ?_⟩
  rw [Length.add_eq_of_units (hexact last hlast).units_stop]
  exact (hexact last hlast).units_stop

theorem Ranged.shift (h : a.Ranged) (hexact : ∀ r ∈ a.runs, r.ShiftExact dx dy) :
    (a.shift dx dy).Ranged where
  start_eq := by
    intro _ hfirst
    rw [PixelArea.shift, Array.toList_map, List.head?_map] at hfirst
    obtain ⟨first, hmem, rfl⟩ := Option.map_eq_some_iff.1 hfirst
    exact congrArg (· + dy) (h.start_eq first hmem)
  end_eq := by
    intro _ hlast
    rw [PixelArea.shift, Array.toList_map, List.getLast?_map] at hlast
    obtain ⟨last, hmem, rfl⟩ := Option.map_eq_some_iff.1 hlast
    have hexact := hexact last (Array.mem_toList_iff.1 (List.mem_of_getLast? hmem))
    rw [PixelArea.shift, h.end_eq last hmem, Length.add_eq_of_units hexact.units_stop]
  between := by
    intro hheight _ hshifted
    obtain ⟨r, hr, rfl⟩ := Array.mem_map.1 hshifted
    have hheight' : ∀ r ∈ a.runs, 0 ≤ r.height := fun r hr =>
      hheight (r.shift dx dy) (Array.mem_map_of_mem hr)
    obtain ⟨hstart, hend⟩ := h.between hheight' r hr
    obtain ⟨hstart', hend'⟩ := h.shift_exact (not_isEmpty_of_mem hr) hexact
    have hy := (hexact r hr).origin.y
    have hstop := (hexact r hr).units_stop
    simp only [PixelArea.shift, PixelRun.shift, Length.le_def] at *
    omega

theorem ofRuns_ranged {runs : List PixelRun} (h : ofRuns runs = .ok a)
    (hy : (∀ r ∈ runs, 0 ≤ r.height) → runs.Pairwise fun r r' => r.y ≤ r'.y ∧ r.stop ≤ r'.stop) :
    a.Ranged := by
  obtain ⟨-, rfl⟩ := ofRuns_eq_ok_iff.1 h
  refine ⟨fun first hfirst => ?_, fun last hlast => ?_, fun hheight r hr => ?_⟩
  · have hfirst : runs.head? = some first := hfirst
    rw [hfirst]
    rfl
  · have hlast : runs.getLast? = some last := hlast
    rw [hlast]
    rfl
  · have hr : r ∈ runs := List.mem_toArray.1 hr
    have hy := hy fun r hr => hheight r (List.mem_toArray.2 hr)
    have hrefl : ∀ r : PixelRun, r.y ≤ r.y ∧ r.stop ≤ r.stop := fun r =>
      ⟨le_refl _, le_refl _⟩
    have hne := List.ne_nil_of_mem hr
    rw [List.head?_eq_some_head hne, List.getLast?_eq_some_getLast hne]
    exact ⟨(hy.rel_head_of_rel_head_head hr (hrefl _)).1,
      (hy.rel_getLast_of_rel_getLast_getLast hr (hrefl _)).2⟩

theorem ofMask_ranged {mask : AlphaMask} {unit : Int} {threshold : Single} {content : Rect Length}
    {mode : WritingMode} {container : Size Length}
    (h : ofMask mask unit threshold content mode container = .ok a) : a.Ranged := by
  rcases eq_empty_or_ofRuns_of_ofMask h with rfl | ⟨limit, -, -, hruns⟩
  · exact ⟨by simp [empty], by simp [empty], by simp [empty]⟩
  · refine ofRuns_ranged hruns fun hheight => List.pairwise_map.2 ?_
    refine (mask.stackedLines_pairwise mode limit).imp_of_mem fun {v _} hv _ hbefore => ?_
    have hunit : 0 ≤ unit := hheight _ (List.mem_map_of_mem hv)
    have hoffset := hbefore.offset_y_add_le hunit
    have hy := Length.clamp_le_clamp (Int.add_le_add_left (Int.le_trans
      (Int.le_add_of_nonneg_right hunit) hoffset)
      (LineRelative.point mode content.origin container).y.units)
    exact ⟨hy, Length.clamp_le_clamp (Int.add_le_add_right hy unit)⟩

end PixelArea

end FloatLayout
