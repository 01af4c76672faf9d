import FloatLayout.Proofs.MovedEdges

/-!
# Shapes on the move

A shape answers, after it was moved, what it answered before, moved with it. What a shape keeps of
itself, such as its block range, moves along with the points that it stands on.

## Main definitions

- `Shape.Built`: the shapes that are made from styles and images.
- `Shape.ShiftExact`: moving a shape keeps it in the range of lengths.
- `Shape.EdgeExact`: corners draw a side in without leaving that range.
- `Shape.Misses`: a band shows nothing of a shape.
- `Shape.Built.shift_answers`: the answers of a moved shape.
-/

namespace FloatLayout

variable {dx dy dx' dy' : Length} {side : LineSide} {band : Band}

namespace Shape

variable {s : Shape}

/-- The shapes that are made from styles and images. -/
inductive Built : Shape → Prop where
  | roundedBox (b : RoundedBox) : Built (.roundedBox b)
  | ellipse (e : Ellipse) : Built (.ellipse e)
  | polygon (vertices : List (Point Length)) : Built (.polygon (.ofVertices vertices))
  | pixels {mask : AlphaMask} {unit : Int} {threshold : Single} {content : Rect Length}
      {mode : WritingMode} {container : Size Length} {a : PixelArea}
      (harea : PixelArea.ofMask mask unit threshold content mode container = .ok a) :
      Built (.pixels a)

/-- The points that a shape stands on. -/
def anchors : Shape → List (Point Length)
  | roundedBox b => [b.rect.origin]
  | ellipse e => [e.center]
  | polygon p => p.vertices
  | pixels a => a.runs.toList.map fun r => ⟨r.x, r.y⟩

/-- The edges that a shape has by adding its extents to its points are lengths. -/
def FarExact : Shape → Prop
  | roundedBox b => b.rect.right.units = b.rect.x.units + b.rect.width.units ∧
      b.rect.bottom.units = b.rect.y.units + b.rect.height.units
  | ellipse e => ((e.center.x - e.radii.width).units = e.center.x.units - e.radii.width.units ∧
        (e.center.x + e.radii.width).units = e.center.x.units + e.radii.width.units) ∧
      (e.center.y - e.radii.height).units = e.center.y.units - e.radii.height.units ∧
        (e.center.y + e.radii.height).units = e.center.y.units + e.radii.height.units
  | polygon _ => True
  | pixels a => ∀ r ∈ a.runs, r.FarExact

/-- Moving a shape keeps its points in the range of lengths, and its far edges before and after. -/
structure ShiftExact (s : Shape) (dx dy : Length) : Prop where
  anchors : ∀ p ∈ s.anchors, p.ShiftExact dx dy
  far : s.FarExact
  far_shift : (s.shift dx dy).FarExact

/-- The position to which corners draw a side in, in a band, is a length. -/
def EdgeExact (side : LineSide) (band : Band) : Shape → Prop
  | roundedBox b => ∀ radii ∈ b.radii, ∀ indent,
      (radii.ofSide side).indent ⟨b.blockStart, b.blockEnd⟩ band = .ok indent →
        side.InwardExact (b.rect.lineEdge side) indent
  | ellipse e => ∀ indent, e.corners.indent ⟨e.blockStart, e.blockEnd⟩ band = .ok indent →
      side.InwardExact (side.outward e.center.x e.radii.width) indent
  | polygon _ | pixels _ => True

/-- A band shows nothing of a shape: no edge of a polygon runs through it, or no run of an image
    follows the place that a search for the start of the band ends at. Boxes and ellipses show in
    every band. -/
def Misses (band : Band) : Shape → Prop
  | roundedBox _ | ellipse _ => False
  | polygon p => ∀ s ∈ p.edges, ¬s.Enters band
  | pixels a => ∀ first, PixelArea.firstReaching a.runs band.start 0 a.runs.size = .ok first →
      a.shown first band = []

theorem misses_pixels_iff_shown {a : PixelArea} {first : Nat}
    (hfirst : PixelArea.firstReaching a.runs band.start 0 a.runs.size = .ok first) :
    (pixels a).Misses band ↔ a.shown first band = [] := by
  refine ⟨fun hmisses => hmisses first hfirst, fun hnil i hi => ?_⟩
  cases hfirst.symm.trans hi
  exact hnil

/-- A band misses an image whose runs stand in order if it goes past all of them. -/
theorem misses_pixels_iff {a : PixelArea} (h : a.Stacked) :
    (pixels a).Misses band ↔ ∀ r ∈ a.runs, band.start < r.stop → ¬r.y ≤ band.stop := by
  obtain ⟨first, hfirst⟩ := PixelArea.firstReaching_succeeds
    (fun r hr => (h.bounded r hr).stopFits) band.start 0 a.runs.size
  rw [misses_pixels_iff_shown hfirst, List.eq_nil_iff_forall_not_mem]
  simp only [h.mem_shown_iff hfirst, not_and]

/-- The block range that a polygon or an image keeps is that of its vertices or its runs. -/
def Ranged : Shape → Prop
  | roundedBox _ | ellipse _ => True
  | polygon p => p.Ranged
  | pixels a => a.Ranged

theorem Built.ranged (h : s.Built) (harea : s.isEmpty = false) : s.Ranged := by
  cases h with
  | roundedBox | ellipse => trivial
  | polygon vertices => exact Polygon.ofVertices_ranged harea
  | pixels hmask => exact PixelArea.ofMask_ranged hmask

theorem isEmpty_shift (s : Shape) (dx dy : Length) : (s.shift dx dy).isEmpty = s.isEmpty := by
  cases s with
  | roundedBox | ellipse | polygon => rfl
  | pixels a => exact decide_eq_decide.2 Array.map_eq_empty_iff

namespace ShiftExact

theorem pixelRun {a : PixelArea} (h : (pixels a).ShiftExact dx dy) :
    ∀ r ∈ a.runs, r.ShiftExact dx dy := fun r hr =>
  ⟨h.anchors _ (List.mem_map_of_mem (Array.mem_toList_iff.2 hr)), h.far r hr,
    h.far_shift _ (Array.mem_map_of_mem hr)⟩

/-- The block range moves with the shape. -/
theorem units_range (h : s.ShiftExact dx dy) (hranged : s.Ranged) (harea : s.isEmpty = false) :
    (s.shift dx dy).blockStart.units = s.blockStart.units + dy.units ∧
      (s.shift dx dy).blockEnd.units = s.blockEnd.units + dy.units := by
  cases s with
  | roundedBox b =>
    have hy : (b.rect.y + dy).units = b.rect.y.units + dy.units :=
      (h.anchors b.rect.origin (List.mem_singleton.2 rfl)).y
    have hbottom : b.rect.bottom.units = b.rect.y.units + b.rect.height.units := h.far.2
    have hbottom' : (b.rect.shift dx dy).bottom.units =
      (b.rect.y + dy).units + b.rect.height.units := h.far_shift.2
    refine ⟨hy, ?_⟩
    change (b.rect.shift dx dy).bottom.units = b.rect.bottom.units + dy.units
    omega
  | ellipse e =>
    have hy : (e.center.y + dy).units = e.center.y.units + dy.units :=
      (h.anchors e.center (List.mem_singleton.2 rfl)).y
    obtain ⟨-, hstart, hend⟩ := h.far
    obtain ⟨-, hstart', hend'⟩ := h.far_shift
    change (e.center.y + dy - e.radii.height).units =
      (e.center.y + dy).units - e.radii.height.units at hstart'
    change (e.center.y + dy + e.radii.height).units =
      (e.center.y + dy).units + e.radii.height.units at hend'
    change (e.center.y + dy - e.radii.height).units = (e.center.y - e.radii.height).units + _ ∧
      (e.center.y + dy + e.radii.height).units = (e.center.y + e.radii.height).units + _
    omega
  | polygon p =>
    obtain ⟨v, hv, hstart⟩ := List.mem_map.1 (Polygon.Ranged.start_mem hranged)
    obtain ⟨w, hw, hend⟩ := List.mem_map.1 (Polygon.Ranged.end_mem hranged)
    change (p.blockStart + dy).units = p.blockStart.units + dy.units ∧
      (p.blockEnd + dy).units = p.blockEnd.units + dy.units
    rw [← hstart, ← hend]
    exact ⟨(h.anchors v hv).y, (h.anchors w hw).y⟩
  | pixels a =>
    exact PixelArea.Ranged.shift_exact hranged (of_decide_eq_false harea) h.pixelRun

theorem ranged (h : s.ShiftExact dx dy) (hranged : s.Ranged) : (s.shift dx dy).Ranged := by
  cases s with
  | roundedBox | ellipse => trivial
  | polygon p => exact Polygon.Ranged.shift hranged dx dy
  | pixels a => exact PixelArea.Ranged.shift hranged h.pixelRun

/-- Moving a shape twice is moving it by the sum of both offsets. -/
theorem shift_shift (h : s.ShiftExact dx dy) (hranged : s.Ranged) (harea : s.isEmpty = false)
    (hsum : (⟨dx, dy⟩ : Point Length).ShiftExact dx' dy') :
    (s.shift dx dy).shift dx' dy' = s.shift (dx + dx') (dy + dy') := by
  obtain ⟨hstart, hend⟩ := h.units_range hranged harea
  cases s with
  | roundedBox b =>
    have horigin := h.anchors b.rect.origin (List.mem_singleton.2 rfl)
    have hx : b.rect.x + dx + dx' = b.rect.x + (dx + dx') := Length.add_add_eq_add horigin.x hsum.x
    have hy : b.rect.y + dy + dy' = b.rect.y + (dy + dy') := Length.add_add_eq_add horigin.y hsum.y
    simp only [shift, RoundedBox.shift, Rect.shift, hx, hy]
  | ellipse e =>
    have hcenter := (h.anchors e.center (List.mem_singleton.2 rfl)).shift_shift hsum
    simp only [shift, Ellipse.shift, hcenter]
  | polygon p =>
    have hvertices : (p.vertices.map (·.shift dx dy)).map (·.shift dx' dy') =
        p.vertices.map (·.shift (dx + dx') (dy + dy')) := by
      rw [List.map_map]
      exact List.map_congr_left fun v hv => (h.anchors v hv).shift_shift hsum
    simp only [shift, Polygon.shift, hvertices, Length.add_add_eq_add hstart hsum.y,
      Length.add_add_eq_add hend hsum.y]
  | pixels a =>
    have hruns : (a.runs.map (·.shift dx dy)).map (·.shift dx' dy') =
        a.runs.map (·.shift (dx + dx') (dy + dy')) := by
      rw [Array.map_map]
      refine Array.map_congr_left fun r hr => ?_
      have horigin := (h.pixelRun r hr).origin
      have hx : r.x + dx + dx' = r.x + (dx + dx') := Length.add_add_eq_add horigin.x hsum.x
      have hy : r.y + dy + dy' = r.y + (dy + dy') := Length.add_add_eq_add horigin.y hsum.y
      simp only [Function.comp, PixelRun.shift, hx, hy]
    simp only [shift, PixelArea.shift, hruns, Length.add_add_eq_add hstart hsum.y,
      Length.add_add_eq_add hend hsum.y]

theorem units_lineEdge {b : RoundedBox} (h : (roundedBox b).ShiftExact dx dy) (side : LineSide) :
    ((b.rect.shift dx dy).lineEdge side).units = (b.rect.lineEdge side).units + dx.units := by
  have hx : (b.rect.x + dx).units = b.rect.x.units + dx.units :=
    (h.anchors b.rect.origin (List.mem_singleton.2 rfl)).x
  have hright : b.rect.right.units = b.rect.x.units + b.rect.width.units := h.far.1
  have hright' : (b.rect.shift dx dy).right.units =
    (b.rect.x + dx).units + b.rect.width.units := h.far_shift.1
  cases side with
  | left => exact hx
  | right =>
    change (b.rect.shift dx dy).right.units = b.rect.right.units + dx.units
    omega

theorem units_outward {e : Ellipse} (h : (ellipse e).ShiftExact dx dy) (side : LineSide) :
    (side.outward (e.center.x + dx) e.radii.width).units =
      (side.outward e.center.x e.radii.width).units + dx.units := by
  have hx : (e.center.x + dx).units = e.center.x.units + dx.units :=
    (h.anchors e.center (List.mem_singleton.2 rfl)).x
  obtain ⟨⟨hleft, hright⟩, -⟩ := h.far
  obtain ⟨⟨hleft', hright'⟩, -⟩ := h.far_shift
  change (e.center.x + dx - e.radii.width).units =
    (e.center.x + dx).units - e.radii.width.units at hleft'
  change (e.center.x + dx + e.radii.width).units =
    (e.center.x + dx).units + e.radii.width.units at hright'
  cases side with
  | left =>
    change (e.center.x + dx - e.radii.width).units = (e.center.x - e.radii.width).units + dx.units
    omega
  | right =>
    change (e.center.x + dx + e.radii.width).units = (e.center.x + e.radii.width).units + dx.units
    omega

/-- The edge of a moved shape in a moved band is the edge that the shape had, moved with it. -/
theorem edge_shift (h : s.ShiftExact dx dy) (hranged : s.Ranged) (harea : s.isEmpty = false)
    (hband : band.start ≤ band.stop) (hexact : band.MovesExactly dy) (hedge : s.EdgeExact side band)
    (hedge' : (s.shift dx dy).EdgeExact side (band.moved dy)) :
    ∃ x x', s.edge side band = .ok x ∧ (s.shift dx dy).edge side (band.moved dy) = .ok x' ∧
      (s.Misses band → x = side.innermost ∧ x' = side.innermost) ∧
      (¬s.Misses band → x'.units = x.units + dx.units) := by
  obtain ⟨hstart, hend⟩ := h.units_range hranged harea
  cases s with
  | roundedBox b =>
    have hflat := units_lineEdge h side
    rcases b with ⟨rect, _ | radii⟩
    · exact ⟨_, _, rfl, rfl, False.elim, fun _ => hflat⟩
    · have hrange : rect.y ≤ rect.bottom := Rect.y_le_bottom (of_decide_eq_false harea)
      obtain ⟨x, x', hx, hx', hmoved⟩ := SideCorners.edge_moved hrange hband hexact hstart hend
        hflat (hedge radii rfl) (hedge' radii rfl)
      exact ⟨x, x', hx, hx', False.elim, fun _ => hmoved⟩
  | ellipse e =>
    have hflat := units_outward h side
    have hrange := Ellipse.blockStart_le_blockEnd (of_decide_eq_false harea)
    obtain ⟨x, x', hx, hx', hmoved⟩ := SideCorners.edge_moved hrange hband hexact hstart hend
      hflat hedge hedge'
    exact ⟨x, x', hx, hx', False.elim, fun _ => hmoved⟩
  | polygon p =>
    have hempty : (p.shift dx dy).empty = false := harea
    have hband' := Band.moved_start_le_stop hband dy
    refine ⟨_, _, p.edge_eq harea hband, Polygon.edge_eq hempty hband', fun hmisses => ?_,
      fun hshows => ?_⟩
    · have hcuts := Polygon.cuts_eq_nil_iff.2 hmisses
      have hcuts' : (p.shift dx dy).cuts (band.moved dy) = [] := by
        rw [Polygon.cuts_shift h.anchors hexact, hcuts, List.map_nil]
      exact ⟨Polygon.cutEdge_of_cuts_eq_nil hcuts side,
        Polygon.cutEdge_of_cuts_eq_nil hcuts' side⟩
    · exact Polygon.cutEdge_shift h.anchors hband hexact (mt Polygon.cuts_eq_nil_iff.1 hshows) side
  | pixels a =>
    obtain ⟨first, hfirst⟩ := PixelArea.firstReaching_succeeds
      (fun r hr => (h.far r hr).stopFits) band.start 0 a.runs.size
    have hmisses := misses_pixels_iff_shown hfirst
    refine ⟨_, _, PixelArea.edge_eq h.far hband hfirst,
      PixelArea.edge_shift h.pixelRun hband hexact hfirst, fun hnone => ?_, fun hshows => ?_⟩
    · rw [hmisses.1 hnone]
      exact ⟨rfl, rfl⟩
    · refine side.foldl_outer_innermost_moved (mt hmisses.2 hshows) fun r hr => ?_
      exact (h.pixelRun r (PixelArea.mem_of_mem_shown hr)).units_far side

end ShiftExact

/-- A shape that encloses an area, and that is moved within the range of lengths, answers what it
    answered before, moved with it. Where a band missed it, both answers say so. Its block range
    moves along and stays that of its vertices or runs, it stays as empty as it was, and moving it
    on is moving it by the sum of both offsets. -/
theorem Built.shift_answers (h : s.Built) (harea : s.isEmpty = false)
    (hexact : s.ShiftExact dx dy) :
    (∀ (side : LineSide) (band : Band), band.start ≤ band.stop → band.MovesExactly dy →
      s.EdgeExact side band → (s.shift dx dy).EdgeExact side (band.moved dy) →
        ∃ x x', s.edge side band = .ok x ∧ (s.shift dx dy).edge side (band.moved dy) = .ok x' ∧
          (s.Misses band → x = side.innermost ∧ x' = side.innermost) ∧
          (¬s.Misses band → x'.units = x.units + dx.units)) ∧
      ((s.shift dx dy).blockStart.units = s.blockStart.units + dy.units ∧
        (s.shift dx dy).blockEnd.units = s.blockEnd.units + dy.units) ∧
      (s.shift dx dy).isEmpty = s.isEmpty ∧ (s.Ranged ∧ (s.shift dx dy).Ranged) ∧
      ∀ dx' dy' : Length, (⟨dx, dy⟩ : Point Length).ShiftExact dx' dy' →
        (s.shift dx dy).shift dx' dy' = s.shift (dx + dx') (dy + dy') := by
  have hranged := h.ranged harea
  refine ⟨fun side band hband hband' hedge hedge' => ?_, hexact.units_range hranged harea,
    s.isEmpty_shift dx dy, ⟨hranged, hexact.ranged hranged⟩, fun dx' dy' hsum => ?_⟩
  · exact hexact.edge_shift hranged harea hband hband' hedge hedge'
  · exact hexact.shift_shift hranged harea hsum

/-- A box with round corners in a band that ends in an arc, and an hourglass in the line through its
    lower side, both moved. -/
theorem arched_shift_answers :
    let corner : CornerRadius Length := ⟨50, 50⟩
    let box := roundedBox ⟨⟨0, 0, 200, 100⟩, some ⟨corner, corner, corner, corner⟩⟩
    let glass := polygon (.ofVertices Polygon.hourglass)
    (∃ x x', box.edge .left ⟨0, 20⟩ = .ok x ∧ (box.shift 5 (-30)).edge .left ⟨-30, -10⟩ = .ok x' ∧
      x'.units = x.units + 5) ∧
    (glass.shift 5 (-30)).edge .left ⟨70, 90⟩ = .ok .greatest ∧
    (glass.shift 5 (-30)).shift 7 40 = glass.shift 12 10 := by
  intro corner box glass
  constructor
  · have hbox : box.ShiftExact 5 (-30) :=
      ⟨List.forall_mem_singleton.2 ⟨by decide, by decide⟩, ⟨by decide, by decide⟩, by decide,
        by decide⟩
    have hindent : (⟨corner, corner⟩ : SideCorners).indent ⟨0, 100⟩ ⟨0, 20⟩ = .ok 10 := by
      decide +kernel
    have hindent' : (⟨corner, corner⟩ : SideCorners).indent ⟨-30, 70⟩ ⟨-30, -10⟩ = .ok 10 := by
      decide +kernel
    have hedge : box.EdgeExact .left ⟨0, 20⟩ := by
      intro radii hradii indent h
      cases hradii
      cases hindent.symm.trans h
      decide
    have hedge' : (box.shift 5 (-30)).EdgeExact .left ⟨-30, -10⟩ := by
      intro radii hradii indent h
      cases hradii
      cases hindent'.symm.trans h
      decide
    obtain ⟨hedges, -⟩ := Built.shift_answers (.roundedBox _) (by decide) hbox
    obtain ⟨x, x', hx, hx', -, hmoved⟩ := hedges .left ⟨0, 20⟩ (by decide) ⟨by decide, by decide⟩
      hedge hedge'
    exact ⟨x, x', hx, hx', hmoved id⟩
  · have hglass : glass.ShiftExact 5 (-30) := by
      refine ⟨fun v hv => ?_, trivial, trivial⟩
      have hshift : ∀ v ∈ Polygon.hourglass, (v.x + 5).units = v.x.units + 5 ∧
          (v.y + -30).units = v.y.units - 30 := by decide
      exact ⟨(hshift v hv).1, (hshift v hv).2⟩
    have hmisses : glass.Misses ⟨100, 120⟩ := by
      show ∀ s ∈ (Polygon.ofVertices Polygon.hourglass).edges, ¬s.Enters ⟨100, 120⟩
      decide
    obtain ⟨hedges, -, -, -, hsum⟩ := Built.shift_answers (.polygon _) (by decide) hglass
    obtain ⟨_, x', -, hx', hinnermost, -⟩ := hedges .left ⟨100, 120⟩ (by decide)
      ⟨by decide, by decide⟩ trivial trivial
    have hx' : (glass.shift 5 (-30)).edge .left ⟨70, 90⟩ = .ok x' := hx'
    rw [(hinnermost hmisses).2] at hx'
    exact ⟨hx', hsum 7 40 ⟨by decide, by decide⟩⟩

end Shape

end FloatLayout
