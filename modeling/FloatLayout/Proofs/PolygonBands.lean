import FloatLayout.Proofs.PolygonEdge

/-!
# Polygons in bands

A closed loop of vertices that has one above a line and one on it or below goes across the line
along one of its edges. So a polygon that encloses an area shows in every band that reaches into its
block range, but for a line through a vertex, and what it shows there lies between its vertices.

## Main definitions

- `Polygon.cuts`, `Polygon.edge_eq`: the edge of a polygon in a band is the outermost of the
  positions at which its edges come into the band or go out of it.
- `Polygon.exists_edge_across`: the loop goes across every line between two of its vertices.
- `Polygon.Ranged`: the block range of a polygon is that of its vertices.
- `Polygon.reach`: the outermost vertex.
- `Polygon.ofVertices_edge_between`: what a polygon shows lies between its vertices.
-/

namespace FloatLayout

/-- A property that the pairs of neighbours on the way to `last` have both or neither is one of all
    entries or of none. -/
theorem iff_last_of_zipWith {α β : Type} {pair : α → α → β} {P : α → Prop} {l : List α} {last : α}
    (h : ∀ a b, pair a b ∈ l.zipWith pair (l.tail ++ [last]) → (P a ↔ P b)) :
    ∀ a ∈ l, P a ↔ P last := by
  induction l with
  | nil => exact nofun
  | cons a rest ih =>
    cases rest with
    | nil =>
      rw [List.forall_mem_singleton]
      exact h a last List.mem_cons_self
    | cons b rest =>
      have hrest := ih fun c d hcd => h c d (List.mem_cons_of_mem _ hcd)
      have hfirst : P a ↔ P b := h a b List.mem_cons_self
      rw [List.forall_mem_cons]
      exact ⟨hfirst.trans (hrest b List.mem_cons_self), hrest⟩

namespace Polygon

variable {polygon : Polygon} {vertices : List (Point Length)} {side : LineSide} {band : Band}
  {c : Segment × Length} {x y : Length}

-- ════════════════════════════════════════════════════════════════════════
-- Cuts
-- ════════════════════════════════════════════════════════════════════════

/-- The edges inside a band, each with the line at which it comes in and with the one at which it
    goes out. -/
def cuts (polygon : Polygon) (band : Band) : List (Segment × Length) :=
  (polygon.edges.filter (·.Enters band)).flatMap fun s => [(s, s.entry band), (s, s.exit band)]

theorem mem_cuts_iff :
    c ∈ polygon.cuts band ↔ (c.1 ∈ polygon.edges ∧ c.1.Enters band) ∧
      (c.2 = c.1.entry band ∨ c.2 = c.1.exit band) := by
  obtain ⟨s, y⟩ := c
  simp only [cuts, List.mem_flatMap, List.mem_filter, decide_eq_true_eq, List.mem_cons,
    List.not_mem_nil, or_false, Prod.mk.injEq]
  constructor
  · rintro ⟨s, hs, ⟨rfl, hy⟩ | ⟨rfl, hy⟩⟩
    · exact ⟨hs, .inl hy⟩
    · exact ⟨hs, .inr hy⟩
  · rintro ⟨hs, hy⟩
    exact ⟨s, hs, hy.imp (⟨rfl, ·⟩) (⟨rfl, ·⟩)⟩

theorem cuts_eq_nil_iff : polygon.cuts band = [] ↔ ∀ s ∈ polygon.edges, ¬s.Enters band := by
  simp [cuts]

/-- A cut lies on its edge and in the band. -/
theorem between_of_mem_cuts (hband : band.start ≤ band.stop) (hc : c ∈ polygon.cuts band) :
    c.1.upper.y < c.1.lower.y ∧ (c.1.upper.y ≤ c.2 ∧ c.2 ≤ c.1.lower.y) ∧
      band.start ≤ c.2 ∧ c.2 ≤ band.stop := by
  obtain ⟨⟨hs, hstart, hstop, hne⟩, hy⟩ := mem_cuts_iff.1 hc
  have hends := upper_le_lower_of_mem_edges hs
  rw [Ne, Length.ext_iff] at hne
  rcases hy with hy | hy <;> rw [hy] <;>
    simp only [Segment.entry, Segment.exit, Length.le_def, Length.lt_def, Length.units_max,
      Length.units_min] at * <;>
    omega

/-- The outermost of the positions at the cuts of a band. -/
def cutEdge (polygon : Polygon) (side : LineSide) (band : Band) : Length :=
  ((polygon.cuts band).map fun c => c.1.xAt c.2).foldl side.outer side.innermost

theorem outside_cutEdge_iff :
    side.Outside x (polygon.cutEdge side band) ↔
      ∀ c ∈ polygon.cuts band, side.Outside x (c.1.xAt c.2) := by
  rw [cutEdge, LineSide.outside_foldl_outer_iff, and_iff_right (LineSide.outside_innermost side x),
    List.forall_mem_map]

/-- The edge of a polygon in a band is the outermost of the positions at its cuts. -/
theorem edge_eq (harea : polygon.empty = false) (hband : band.start ≤ band.stop) :
    polygon.edge side band = .ok (polygon.cutEdge side band) := by
  obtain ⟨x, hx⟩ : Succeeds (polygon.edge side band) := edge_succeeds harea hband
  have hcuts : x = polygon.cutEdge side band := by
    refine side.eq_of_outside_iff fun p => ?_
    rw [outside_edge_iff hx, outside_cutEdge_iff]
    constructor
    · intro hout c hc
      obtain ⟨⟨hs, henters⟩, hy⟩ := mem_cuts_iff.1 hc
      obtain ⟨hentry, hexit⟩ := hout c.1 hs henters
      rcases hy with hy | hy <;> rwa [hy]
    · intro hout s hs henters
      exact ⟨hout (s, s.entry band) (mem_cuts_iff.2 ⟨⟨hs, henters⟩, .inl rfl⟩),
        hout (s, s.exit band) (mem_cuts_iff.2 ⟨⟨hs, henters⟩, .inr rfl⟩)⟩
  rw [hx, hcuts]

theorem cutEdge_of_cuts_eq_nil (h : polygon.cuts band = []) (side : LineSide) :
    polygon.cutEdge side band = side.innermost := by
  rw [cutEdge, h]
  rfl

/-- The edge in a band is the position at one of its cuts, if there are any. -/
theorem exists_cutEdge_eq (side : LineSide) (h : polygon.cuts band ≠ []) :
    ∃ c ∈ polygon.cuts band, polygon.cutEdge side band = c.1.xAt c.2 := by
  have hmem := LineSide.foldl_outer_innermost_mem side
    (mt List.map_eq_nil_iff.1 h : (polygon.cuts band).map (fun c => c.1.xAt c.2) ≠ [])
  obtain ⟨c, hc, hx⟩ := List.mem_map.1 hmem
  exact ⟨c, hc, hx.symm⟩

-- ════════════════════════════════════════════════════════════════════════
-- The block range
-- ════════════════════════════════════════════════════════════════════════

/-- The loop of the vertices goes across a line that lies below one of them and not below
    another. -/
theorem exists_edge_across (habove : ∃ v ∈ polygon.vertices, v.y < y)
    (hbelow : ∃ v ∈ polygon.vertices, y ≤ v.y) :
    ∃ s ∈ polygon.edges, s.upper.y < y ∧ y ≤ s.lower.y := by
  refine Classical.byContradiction fun hnone => ?_
  have hstays : ∀ p q, Segment.between p q ∈ polygon.edges → (p.y < y ↔ q.y < y) := by
    refine fun p q hs => Classical.byContradiction fun hne => hnone ⟨_, hs, ?_⟩
    unfold Segment.between
    split <;> simp only [Length.le_def, Length.lt_def] at * <;> omega
  obtain ⟨v, hv, hvy⟩ := habove
  obtain ⟨w, hw, hwy⟩ := hbelow
  obtain ⟨first, rest, hvertices⟩ := List.exists_cons_of_ne_nil (List.ne_nil_of_mem hv)
  -- The loop ends where it starts, so that all vertices lie on one side of the line.
  have hedges : polygon.edges =
      polygon.vertices.zipWith Segment.between (polygon.vertices.tail ++ [first]) := by
    rw [edges, hvertices]
    rfl
  rw [hedges] at hstays
  have hsame := iff_last_of_zipWith hstays
  exact not_lt.2 hwy ((hsame w hw).2 ((hsame v hv).1 hvy))

/-- The block range of a polygon is that of its vertices. -/
structure Ranged (polygon : Polygon) : Prop where
  between : ∀ v ∈ polygon.vertices, polygon.blockStart ≤ v.y ∧ v.y ≤ polygon.blockEnd
  start_mem : polygon.blockStart ∈ polygon.vertices.map Point.y
  end_mem : polygon.blockEnd ∈ polygon.vertices.map Point.y

theorem ofVertices_eq (h : (ofVertices vertices).empty = false) :
    ¬(vertices.length < 3 ∨ Collinear vertices) ∧
      ofVertices vertices =
        ⟨vertices, false, (vertices.map Point.y).foldl min .greatest,
          (vertices.map Point.y).foldl max .least⟩ := by
  unfold ofVertices at h ⊢
  split at h
  · cases h
  · next harea => exact ⟨harea, if_neg harea⟩

theorem ofVertices_ranged (h : (ofVertices vertices).empty = false) :
    (ofVertices vertices).Ranged := by
  obtain ⟨harea, heq⟩ := ofVertices_eq h
  have hne : vertices.map Point.y ≠ [] := by
    intro hnil
    rw [List.map_eq_nil_iff.1 hnil] at harea
    exact harea (.inl (Nat.zero_lt_succ 2))
  have hstart := (Length.le_foldl_min_iff.1 (le_refl
    ((vertices.map Point.y).foldl min .greatest))).2
  have hend := (Length.foldl_max_le_iff.1 (le_refl
    ((vertices.map Point.y).foldl max .least))).2
  rw [heq]
  refine ⟨fun v hv => ?_, LineSide.foldl_outer_innermost_mem .left hne,
    LineSide.foldl_outer_innermost_mem .right hne⟩
  exact ⟨hstart _ (List.mem_map_of_mem hv), hend _ (List.mem_map_of_mem hv)⟩

theorem mem_of_baseline? {line : Point Length × Point Length} (h : line ∈ baseline? vertices) :
    line.1 ∈ vertices ∧ line.2 ∈ vertices := by
  cases vertices with
  | nil => cases h
  | cons p rest =>
    obtain ⟨q, hq, rfl⟩ := Option.map_eq_some_iff.1 h
    exact ⟨List.mem_cons_self, List.mem_cons_of_mem p (List.mem_of_find?_eq_some hq)⟩

/-- Vertices of one height lie on one line. -/
theorem collinear_of_level {height : Length} (h : ∀ v ∈ vertices, v.y = height) :
    Collinear vertices := by
  intro line hline p hp
  obtain ⟨hfirst, hsecond⟩ := mem_of_baseline? hline
  rw [determinant, h _ hfirst, h _ hsecond, h p hp, Int.sub_self, Int.mul_zero, Int.zero_mul]
  rfl

/-- A polygon that encloses an area has a height. -/
theorem ofVertices_blockStart_lt (h : (ofVertices vertices).empty = false) :
    (ofVertices vertices).blockStart < (ofVertices vertices).blockEnd := by
  obtain ⟨harea, heq⟩ := ofVertices_eq h
  have hranged := (ofVertices_ranged h).between
  refine not_le.1 fun hle => harea (.inr ?_)
  have hlevel : ∀ v ∈ vertices, v.y = (ofVertices vertices).blockStart := by
    intro v hv
    have hv : v ∈ (ofVertices vertices).vertices := by rwa [heq]
    exact le_antisymm (le_trans (hranged v hv).2 hle) (hranged v hv).1
  exact collinear_of_level hlevel

/-- A band that reaches into the block range has an edge inside, unless it is a line through a
    vertex. -/
theorem Ranged.exists_enters (h : polygon.Ranged) (hband : band.start ≤ band.stop)
    (habove : band.start < polygon.blockEnd) (hbelow : polygon.blockStart < band.stop)
    (hheight : polygon.blockStart < polygon.blockEnd)
    (hline : band.start < band.stop ∨ ∀ v ∈ polygon.vertices, v.y ≠ band.start) :
    ∃ s ∈ polygon.edges, s.Enters band := by
  obtain ⟨v, hv, hvy⟩ := List.mem_map.1 h.start_mem
  obtain ⟨w, hw, hwy⟩ := List.mem_map.1 h.end_mem
  have hstart : v.y < min polygon.blockEnd band.stop := by
    simp only [hvy, Length.lt_def, Length.units_min] at *
    omega
  have hend : min polygon.blockEnd band.stop ≤ w.y := by
    simp only [hwy, Length.le_def, Length.units_min]
    omega
  obtain ⟨s, hs, hupper, hlower⟩ := exists_edge_across ⟨v, hv, hstart⟩ ⟨w, hw, hend⟩
  have hline : band.start < band.stop ∨ s.lower.y ≠ band.start :=
    hline.imp_right fun hline => hline _ (mem_vertices_of_mem_edges hs).2
  refine ⟨s, hs, ?_, ?_, ?_⟩ <;>
    simp only [Length.le_def, Length.lt_def, Length.units_min, Length.ext_iff, ne_eq] at * <;> omega

-- ════════════════════════════════════════════════════════════════════════
-- What a band shows
-- ════════════════════════════════════════════════════════════════════════

/-- The outermost vertex on a line side. -/
def reach (polygon : Polygon) (side : LineSide) : Length :=
  (polygon.vertices.map Point.x).foldl side.outer side.innermost

theorem reach_outside {v : Point Length} (hv : v ∈ polygon.vertices) (side : LineSide) :
    side.Outside (polygon.reach side) v.x :=
  (LineSide.outside_foldl_outer_iff.1 (.refl side _)).2 _ (List.mem_map_of_mem hv)

theorem reach_outside_cutEdge (hband : band.start ≤ band.stop) (side : LineSide) :
    side.Outside (polygon.reach side) (polygon.cutEdge side band) := by
  refine outside_cutEdge_iff.2 fun c hc => ?_
  obtain ⟨hheight, ⟨hupper, hlower⟩, -⟩ := between_of_mem_cuts hband hc
  obtain ⟨hu, hl⟩ := mem_vertices_of_mem_edges (mem_cuts_iff.1 hc).1.1
  exact Segment.outside_xAt_of_ends hheight hupper hlower (reach_outside hu side)
    (reach_outside hl side)

theorem cutEdge_left_le_right (h : polygon.cuts band ≠ []) :
    polygon.cutEdge .left band ≤ polygon.cutEdge .right band := by
  obtain ⟨c, hc, hright⟩ := exists_cutEdge_eq .right h
  have hleft : LineSide.left.Outside (polygon.cutEdge .left band) (c.1.xAt c.2) :=
    outside_cutEdge_iff.1 (.refl .left _) c hc
  rw [hright]
  exact hleft

/-- A band above a polygon or below it has no edge inside. -/
theorem Ranged.not_enters {s : Segment} (h : polygon.Ranged)
    (hmisses : band.stop ≤ polygon.blockStart ∨ polygon.blockEnd ≤ band.start)
    (hs : s ∈ polygon.edges) : ¬s.Enters band := by
  rintro ⟨hstart, hstop, -⟩
  obtain ⟨hu, hl⟩ := mem_vertices_of_mem_edges hs
  rcases hmisses with hmisses | hmisses
  · exact not_lt.2 (le_trans hmisses (h.between _ hu).1) hstop
  · exact not_lt.2 (le_trans (h.between _ hl).2 hmisses) hstart

/-- A polygon that encloses an area shows in every band that reaches into its block range, but for a
    line through a vertex, and what it shows lies between its vertices. In a band that ends above it
    or starts below it, it shows nothing. -/
theorem ofVertices_edge_between (harea : (ofVertices vertices).empty = false) :
    let polygon := ofVertices vertices
    polygon.blockStart < polygon.blockEnd ∧
      ∀ band : Band, band.start ≤ band.stop → ∃ left right,
        polygon.edge .left band = .ok left ∧ polygon.edge .right band = .ok right ∧
        (band.start < polygon.blockEnd → polygon.blockStart < band.stop →
          band.start < band.stop ∨ (∀ v ∈ vertices, v.y ≠ band.start) →
            (∃ s ∈ polygon.edges, s.Enters band) ∧
              polygon.reach .left ≤ left ∧ left ≤ right ∧ right ≤ polygon.reach .right) ∧
        (band.stop ≤ polygon.blockStart ∨ polygon.blockEnd ≤ band.start →
          left = .greatest ∧ right = .least) := by
  intro polygon
  have hranged : polygon.Ranged := ofVertices_ranged harea
  have hheight : polygon.blockStart < polygon.blockEnd := ofVertices_blockStart_lt harea
  have hvertices : polygon.vertices = vertices := congrArg Polygon.vertices (ofVertices_eq harea).2
  refine ⟨hheight, fun band hband => ⟨_, _, edge_eq harea hband, edge_eq harea hband, ?_, ?_⟩⟩
  · intro habove hbelow hline
    rw [← hvertices] at hline
    obtain ⟨s, hs, henters⟩ := hranged.exists_enters hband habove hbelow hheight hline
    have hcuts : polygon.cuts band ≠ [] := fun hnil => cuts_eq_nil_iff.1 hnil s hs henters
    exact ⟨⟨s, hs, henters⟩, reach_outside_cutEdge hband .left, cutEdge_left_le_right hcuts,
      reach_outside_cutEdge hband .right⟩
  · intro hmisses
    have hcuts : polygon.cuts band = [] :=
      cuts_eq_nil_iff.2 fun s hs => hranged.not_enters hmisses hs
    exact ⟨cutEdge_of_cuts_eq_nil hcuts .left, cutEdge_of_cuts_eq_nil hcuts .right⟩

/-- Two triangles that meet in a point, with a repeated vertex. -/
def hourglass : List (Point Length) := [⟨0, 0⟩, ⟨0, 0⟩, ⟨100, 100⟩, ⟨0, 100⟩, ⟨100, 0⟩]

/-- The line through the waist of `hourglass` shows the one point that the triangles share, and the
    line through its lower side shows nothing. -/
theorem hourglass_edge_between :
    (ofVertices hourglass).empty = false ∧
      (∃ left right, (ofVertices hourglass).edge .left ⟨50, 50⟩ = .ok left ∧
        (ofVertices hourglass).edge .right ⟨50, 50⟩ = .ok right ∧
        0 ≤ left ∧ left ≤ right ∧ right ≤ 100) ∧
      (ofVertices hourglass).edge .left ⟨100, 120⟩ = .ok .greatest := by
  have harea : (ofVertices hourglass).empty = false := by decide
  obtain ⟨-, hbands⟩ := ofVertices_edge_between harea
  refine ⟨harea, ?_, ?_⟩
  · obtain ⟨left, right, hleft, hright, hshows, -⟩ := hbands ⟨50, 50⟩ (by decide)
    obtain ⟨-, hbetween⟩ := hshows (by decide) (by decide) (by decide)
    exact ⟨left, right, hleft, hright, hbetween⟩
  · obtain ⟨left, right, hleft, -, -, hmisses⟩ := hbands ⟨100, 120⟩ (by decide)
    rw [hleft, (hmisses (by decide)).1]

end Polygon

end FloatLayout
