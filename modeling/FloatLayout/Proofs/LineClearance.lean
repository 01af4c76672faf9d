import FloatLayout.Proofs.FlowAnswer
import FloatLayout.Proofs.PolygonEdge

/-!
# Lines beside polygons

The first line of a band from a point stays clear of every edge of a polygon that runs through it,
up to the rounding of the edge. Edges that only end on the line do not count, so a line through a
vertex may run into the polygon.

## Main definitions

- `Segment.intercept`: where an edge meets a line, exactly.
- `Polygon.Inside`: a polygon lies inside a margin box.
- `FlowArea.ClearOf`: the edge of an area stays clear of a position.
- `FloatContext.edges_of_answer`: the edges of an answer whose edges do not cross.

## Design notes

An answer whose edges do not cross is exact without any assumption about clamped sums: what floats
leave lies within the content area, whose edges are lengths as seen from the container.
-/

namespace FloatLayout

variable {side : LineSide} {x y : Length}

-- ════════════════════════════════════════════════════════════════════════
-- Rounding
-- ════════════════════════════════════════════════════════════════════════

/-- A quotient rounded towards zero is less than one away from the exact one. -/
theorem tdiv_near {n d : Int} (hd : 0 < d) :
    (n.tdiv d : Rat) - 1 < (n : Rat) / d ∧ (n : Rat) / d < (n.tdiv d : Rat) + 1 := by
  have hd' : (0 : Rat) < d := Rat.intCast_pos.2 hd
  have hsum := Int.mul_tdiv_add_tmod n d
  constructor
  · have hlow : (n.tdiv d - 1) * d < n := by
      have := Int.lt_tmod_of_pos n hd
      rw [Int.sub_mul, Int.mul_comm]
      omega
    rw [Rat.lt_div_iff hd']
    exact_mod_cast hlow
  · have hhigh : n < (n.tdiv d + 1) * d := by
      have := Int.tmod_lt_of_pos n hd
      rw [Int.add_mul, Int.mul_comm]
      omega
    rw [Rat.div_lt_iff hd']
    exact_mod_cast hhigh

/-- A sum that is brought back into range lies between its first summand and the exact sum. -/
theorem Length.units_add_sub_mem (a b : Length) :
    min 0 b.units ≤ (a + b).units - a.units ∧ (a + b).units - a.units ≤ max 0 b.units := by
  have := a.lower
  have := a.upper
  rw [Length.units_add]
  omega

-- ════════════════════════════════════════════════════════════════════════
-- Polygons
-- ════════════════════════════════════════════════════════════════════════

namespace Segment

variable {s : Segment}

/-- Where an edge that is not horizontal meets a line. -/
def intercept (s : Segment) (y : Length) : Rat :=
  s.upper.x.units +
    (((y.units - s.upper.y.units) * (s.lower.x.units - s.upper.x.units) : Int) : Rat) /
      (s.lower.y.units - s.upper.y.units : Int)

/-- The position of an edge on a line between its ends is less than one unit away from where the
    edge meets the line. -/
theorem xAt_near_of_le (hheight : s.upper.y < s.lower.y) (hupper : s.upper.y ≤ y)
    (hlower : y ≤ s.lower.y) :
    ((s.xAt y).units : Rat) - 1 < s.intercept y ∧ s.intercept y < (s.xAt y).units + 1 := by
  have hpos : 0 < s.lower.y.units - s.upper.y.units := by
    rw [Length.lt_def] at hheight
    omega
  obtain ⟨hlow, hhigh⟩ := tdiv_near (n := (y.units - s.upper.y.units) *
    (s.lower.x.units - s.upper.x.units)) hpos
  rw [units_xAt hheight hupper hlower, Rat.intCast_add]
  unfold intercept
  constructor <;> grind

theorem xAt_near (hupper : s.upper.y < y) (hlower : y < s.lower.y) :
    ((s.xAt y).units : Rat) - 1 < s.intercept y ∧ s.intercept y < (s.xAt y).units + 1 :=
  xAt_near_of_le (lt_trans hupper hlower) (le_of_lt hupper)
    (le_of_lt hlower)

end Segment

namespace Polygon

variable {p : Polygon} {s : Segment} {box : Rect Length}

/-- A polygon lies inside a box. -/
structure Inside (p : Polygon) (box : Rect Length) : Prop where
  inline : ∀ v ∈ p.vertices, box.x ≤ v.x ∧ v.x ≤ box.right
  block : box.y ≤ p.blockStart ∧ p.blockEnd ≤ box.bottom

theorem outside_xAt_of_mem_edges (hx : p.edge side ⟨y, y⟩ = .ok x) (hs : s ∈ p.edges)
    (hupper : s.upper.y < y) (hlower : y < s.lower.y) : side.Outside x (s.xAt y) := by
  have hne := ne_of_lt (lt_trans hupper hlower)
  have hentry : s.entry ⟨y, y⟩ = y := if_neg (not_le.2 hupper)
  have hout := ((outside_edge_iff hx).1 (.refl side x) s hs ⟨hlower, hupper, hne⟩).1
  rwa [hentry] at hout

theorem Inside.outside_xAt (h : p.Inside box) (hs : s ∈ p.edges) (hupper : s.upper.y < y)
    (hlower : y < s.lower.y) (side : LineSide) : side.Outside (box.lineEdge side) (s.xAt y) := by
  have hheight := lt_trans hupper hlower
  obtain ⟨hu, hl⟩ := mem_vertices_of_mem_edges hs
  have hmem : ∀ v ∈ p.vertices, side.Outside (box.lineEdge side) v.x := by
    intro v hv
    cases side
    · exact (h.inline v hv).1
    · exact (h.inline v hv).2
  exact Segment.outside_xAt_of_ends hheight (le_of_lt hupper) (le_of_lt hlower)
    (hmem _ hu) (hmem _ hl)

end Polygon

namespace PlacedFloat

variable {f : PlacedFloat} {p : Polygon} {s : Segment}

theorem clip_outside {box shape : Length} (hbox : side.Outside box x)
    (hshape : side.Outside shape x) : side.Outside (clip side box shape) x := by
  rcases LineSide.outside_clip_iff.1 (LineSide.Outside.refl side (clip side box shape)) with h | h
  · exact h.trans hbox
  · exact h.trans hshape

theorem edge_outside_xAt (hshape : f.shape = some (.polygon p)) (hinside : p.Inside f.rect)
    (hx : f.edge .shapeOutside side ⟨y, y⟩ = .ok x) (hs : s ∈ p.edges) (hupper : s.upper.y < y)
    (hlower : y < s.lower.y) : side.Outside x (s.xAt y) := by
  have hpolygon : f.areaShape .shapeOutside = some (.polygon p) := hshape
  rw [edge_of_shape hpolygon] at hx
  obtain ⟨z, hz, hx⟩ := bind_eq_ok_iff.1 hx
  cases hx
  exact clip_outside (hinside.outside_xAt hs hupper hlower side)
    (Polygon.outside_xAt_of_mem_edges hz hs hupper hlower)

theorem counts_of_inside (hshape : f.shape = some (.polygon p)) (hempty : p.empty = false)
    (hinside : p.Inside f.rect) (hstart : p.blockStart < y) (hend : y < p.blockEnd) :
    f.Counts .shapeOutside ⟨y, y⟩ := by
  have hblockStart : f.blockStart .shapeOutside = max f.rect.y p.blockStart := by
    unfold blockStart areaShape
    rw [hshape]
    rfl
  have hblockEnd : f.blockEnd .shapeOutside = min f.rect.bottom p.blockEnd := by
    unfold blockEnd areaShape
    rw [hshape]
    rfl
  have hfull : f.isEmpty .shapeOutside = false := by
    unfold isEmpty areaShape
    rw [hshape]
    exact hempty
  obtain ⟨htop, hbottom⟩ := hinside.block
  refine ⟨hfull, crosses_line.2 ?_⟩
  rw [hblockStart, hblockEnd]
  simp only [Length.le_def, Length.lt_def, Length.units_max, Length.units_min] at *
  omega

end PlacedFloat

-- ════════════════════════════════════════════════════════════════════════
-- Answers
-- ════════════════════════════════════════════════════════════════════════

/-- The edge of an area on a line side lies at a position or farther in, up to less than one unit.
    Positions count from `origin`, where the container begins. -/
def FlowArea.ClearOf (a : FlowArea) (origin : Length) (container : Size Length) (x : Rat) :
    LineSide → Prop
  | .left => x < (origin.units + a.rect.units.lineEdge container.units .left : Int) + 1
  | .right => (origin.units + a.rect.units.lineEdge container.units .right : Int) - 1 < x

instance (a : FlowArea) (origin : Length) (container : Size Length) (x : Rat) (side : LineSide) :
    Decidable (a.ClearOf origin container x side) :=
  match side with
  | .left => inferInstanceAs (Decidable (_ < _))
  | .right => inferInstanceAs (Decidable (_ < _))

namespace FloatContext

variable {c : FloatContext} {q : FlowQuery} {s : Clearing}

theorem sub_offset_mem (hnarrowed : (c.clearingOf q).NarrowedTo s) (hleft : s.left ≤ x)
    (hright : x ≤ s.right) :
    min 0 (q.content.lineLeft q.container).units ≤ x.units - c.offset.x.units ∧
      x.units - c.offset.x.units ≤ max 0
        (max (q.content.lineLeft q.container).units (q.content.lineRight q.container).units) := by
  have hfirst := Length.units_add_sub_mem c.offset.x (q.content.lineLeft q.container)
  have hlast := Length.units_add_sub_mem c.offset.x (q.content.lineRight q.container)
  have hfrom : c.offset.x + q.content.lineLeft q.container ≤ x :=
    le_trans hnarrowed.left hleft
  have hto : x ≤ (c.clearingOf q).right := le_trans hright hnarrowed.right
  unfold clearingOf at hto
  dsimp only at hto
  rw [Length.le_def] at hfrom hto
  split at hto <;> omega

theorem inlineStart_ltr (hnarrowed : (c.clearingOf q).NarrowedTo s) (hopen : s.left ≤ s.right) :
    (s.left - c.offset.x).units = s.left.units - c.offset.x.units := by
  have hmem := sub_offset_mem hnarrowed (le_refl _) hopen
  have := (q.content.lineLeft q.container).lower
  have := (q.content.lineLeft q.container).upper
  have := (q.content.lineRight q.container).upper
  rw [Length.units_sub]
  omega

theorem inlineStart_rtl (hmode : q.mode.isLtr = false) (hcontent : q.content.mode = q.mode)
    (hnarrowed : (c.clearingOf q).NarrowedTo s) (hopen : s.left ≤ s.right) :
    (c.offset.x - s.right + q.mode.inlineSizeOf q.container).units =
      c.offset.x.units - s.right.units + (q.mode.inlineSizeOf q.container).units := by
  have hmem := sub_offset_mem hnarrowed hopen (le_refl _)
  have hleft : q.content.lineLeft q.container =
      q.mode.inlineSizeOf q.container - q.content.inlineEnd := by
    simp only [Logical.Rect.lineLeft, hcontent, hmode, Bool.false_eq_true, if_false]
  have hright : q.content.lineRight q.container =
      q.mode.inlineSizeOf q.container - q.content.inlineStart := by
    simp only [Logical.Rect.lineRight, hcontent, hmode, Bool.false_eq_true, if_false]
  have := q.content.inlineStart.lower
  have := q.content.inlineStart.upper
  have := q.content.inlineEnd.lower
  have := q.content.inlineEnd.upper
  have := (q.mode.inlineSizeOf q.container).lower
  have := (q.mode.inlineSizeOf q.container).upper
  rw [hleft, hright] at hmem
  simp only [Length.units_sub, Length.units_add] at hmem ⊢
  omega

/-- An answer whose edges do not cross lies within what floats leave, whatever sums were clamped. -/
theorem edges_of_answer (hcontent : q.content.mode = q.mode)
    (hnarrowed : (c.clearingOf q).NarrowedTo s) (hopen : (c.answer q s).isNegative = false) :
    s.left.units ≤
        c.offset.x.units + (c.answer q s).rect.units.lineEdge q.container.units .left ∧
      c.offset.x.units + (c.answer q s).rect.units.lineEdge q.container.units .right ≤
        s.right.units := by
  have hle : s.left ≤ s.right := by
    have hsize : ¬s.right - s.left < 0 := of_decide_eq_false hopen
    simp only [Length.le_def, Length.lt_def, Length.units_sub, Length.units_zero] at *
    omega
  have hsize : (c.answer q s).rect.units.inlineSize ≤ s.right.units - s.left.units := by
    change (max (s.right - s.left) 0).units ≤ _
    rw [Length.le_def] at hle
    rw [Length.units_max, Length.units_sub, Length.units_zero]
    omega
  have hcontainer := inlineSizeOf_units q.mode q.container
  cases hmode : q.mode.isLtr with
  | true =>
    have hstart : (c.answer q s).rect.units.inlineStart = s.left.units - c.offset.x.units :=
      (congrArg Length.units (if_pos hmode)).trans (inlineStart_ltr hnarrowed hle)
    have hmode' : (c.answer q s).rect.units.mode.isLtr = true := hmode
    simp only [Logical.Rect.lineEdge, Logical.Rect.lineLeft, Logical.Rect.lineRight,
      Logical.Rect.inlineEnd, hmode', if_true]
    omega
  | false =>
    have hstart : (c.answer q s).rect.units.inlineStart =
        c.offset.x.units - s.right.units + (q.mode.inlineSizeOf q.container).units :=
      (congrArg Length.units (if_neg (by rw [hmode]; decide))).trans
        (inlineStart_rtl hmode hcontent hnarrowed hle)
    have hmode' : (c.answer q s).rect.units.mode.isLtr = false := hmode
    have hcontainer' : (c.answer q s).rect.units.mode.inlineSizeOf q.container.units =
        (q.mode.inlineSizeOf q.container).units := hcontainer
    simp only [Logical.Rect.lineEdge, Logical.Rect.lineLeft, Logical.Rect.lineRight,
      Logical.Rect.inlineEnd, hmode', hcontainer', Bool.false_eq_true, if_false]
    omega

/-- An answer whose edges do not cross stays clear of what floats leave, up to the rounding of a
    position. -/
theorem clearOf_answer {r : Rat} (hcontent : q.content.mode = q.mode)
    (hnarrowed : (c.clearingOf q).NarrowedTo s) (hopen : (c.answer q s).isNegative = false)
    (hout : side.opposite.Outside (s.edgeOn side) x)
    (hnear : (x.units : Rat) - 1 < r ∧ r < x.units + 1) :
    (c.answer q s).ClearOf c.offset.x q.container r side := by
  obtain ⟨hleft, hright⟩ := edges_of_answer hcontent hnarrowed hopen
  obtain ⟨hlow, hhigh⟩ := hnear
  cases side with
  | left =>
    have hle : x.units ≤ s.left.units := hout
    have hedge := Rat.intCast_le_intCast.2 (Int.le_trans hle hleft)
    unfold FlowArea.ClearOf
    grind
  | right =>
    have hle : s.right.units ≤ x.units := hout
    have hedge := Rat.intCast_le_intCast.2 (Int.le_trans hright hle)
    unfold FlowArea.ClearOf
    grind

/-- What floats leave lies, on the side of a polygon, at every edge of the polygon that runs through
    the line of a question, or farther in. -/
theorem outside_xAt_of_scannedEdge {t : Clearing} {f : PlacedFloat} {p : Polygon} {s : Segment}
    (hlines : c.linesOf q = ⟨c.startOf q, c.startOf q⟩) (harea : q.area = .shapeOutside)
    (hedges : ∀ side, t.edgeOn side = c.scannedEdge q side) (hf : f ∈ c.visible q)
    (hshape : f.shape = some (.polygon p)) (hinside : p.Inside f.rect)
    (hcounts : f.Counts .shapeOutside ⟨c.startOf q, c.startOf q⟩) (hs : s ∈ p.edges)
    (hupper : s.upper.y < c.startOf q) (hlower : c.startOf q < s.lower.y) :
    f.side.opposite.Outside (t.edgeOn f.side) (s.xAt (c.startOf q)) := by
  obtain ⟨x, hx⟩ : Succeeds (f.edge .shapeOutside f.side.opposite ⟨c.startOf q, c.startOf q⟩) := by
    refine f.edge_succeeds hcounts.1 (fun shape hmem => ?_) (le_refl _)
    cases hshape.symm.trans hmem
    trivial
  have hscanned : f.side.opposite.Outside (t.edgeOn f.side) x := by
    have hout := LineSide.Outside.refl f.side.opposite (t.edgeOn f.side)
    rw [hedges, scannedEdge, hlines, harea, LineSide.outside_foldl_outer_iff] at hout
    rw [hedges, scannedEdge, hlines, harea]
    exact hout.2 x (mem_innerEdges_iff.2 ⟨f, hf, rfl, hcounts, hx⟩)
  exact hscanned.trans (f.edge_outside_xAt hshape hinside hx hs hupper hlower)

/-- A left float in the shape of a diamond. -/
def diamondHistory : List Operation :=
  let shape : ShapeOutside :=
    .shape (.polygon [⟨50, 0⟩, ⟨100, 50⟩, ⟨50, 100⟩, ⟨0, 50⟩]) .marginBox
  [.add { FloatBox.plain 1 .left with shapeOutside := shape }
    ⟨.horizontalTb, 0, 0, 100, 100⟩ .horizontalTb ⟨200, 1000⟩]

/-- The shape of `diamondHistory`. -/
def rhombus : Polygon := ⟨[⟨50, 0⟩, ⟨100, 50⟩, ⟨50, 100⟩, ⟨0, 50⟩], false, 0, 100⟩

/-- The context after `diamondHistory`. -/
def diamond : FloatContext :=
  { new .horizontalTb with
    floats := [⟨1, .left, ⟨0, 0, 100, 100⟩, 100, .least, some (.polygon rhombus)⟩] }

theorem diamond_reachable : diamond.Reachable := by
  have h : (new .horizontalTb).run diamondHistory = .ok diamond := rfl
  exact (Reachable.new .horizontalTb).run h

theorem diamond_runsBounded (q : FlowQuery) : diamond.RunsBounded q :=
  runsBounded_of_floats (by simp [diamond, Shape.Bounded]) q

/-- A question for the band beside the float of `diamond` from a line on. -/
def besideDiamond (blockStart : Length) : FlowQuery where
  mode := .horizontalTb
  blockStart
  blockSize := .greatest
  kind := .fromPoint
  area := .shapeOutside
  content := ⟨.horizontalTb, 0, 0, 200, 0⟩
  checkpoint := none
  container := ⟨200, 1000⟩

/-- A band from a point stays clear of every edge that runs through its first line, of every polygon
    inside its margin box, unless the edges of the band cross. -/
theorem Reachable.flowArea_clearOf (h : c.Reachable) (hadmits : c.Admits q)
    (hcontent : q.content.mode = q.mode) (hruns : c.RunsBounded q) (hkind : q.kind = .fromPoint)
    (harea : q.area = .shapeOutside) :
    ∃ a, c.flowArea q = .ok a ∧ (a.isNegative = false →
      ∀ f ∈ c.visible q, ∀ p, f.shape = some (.polygon p) → p.empty = false → p.Inside f.rect →
        p.blockStart < c.startOf q → c.startOf q < p.blockEnd →
        ∀ s ∈ p.edges, s.upper.y < c.startOf q → c.startOf q < s.lower.y →
          a.ClearOf c.offset.x q.container (s.intercept (c.startOf q)) f.side) := by
  have hlines : c.linesOf q = ⟨c.startOf q, c.startOf q⟩ := by
    rw [linesOf, hkind]
    rfl
  by_cases hbelow : c.BelowAll q
  · refine ⟨_, flowArea_eq_ok_iff.2 ⟨hadmits, .inl ⟨hbelow, rfl⟩⟩, ?_⟩
    intro _ f hf p hshape hempty hinside hstart hend
    have hcounts := f.counts_of_inside hshape hempty hinside hstart hend
    rw [← harea, ← hlines] at hcounts
    exact absurd hcounts (not_counts_of_belowAll h hbelow f hf)
  · obtain ⟨t, ht, -, hnarrowed, hedges⟩ := h.flowArea_eq_answer hadmits hcontent hruns hbelow
    refine ⟨_, ht, fun hopen f hf p hshape hempty hinside hstart hend s hs hupper hlower => ?_⟩
    have hcounts := f.counts_of_inside hshape hempty hinside hstart hend
    have hout := outside_xAt_of_scannedEdge hlines harea hedges hf hshape hinside hcounts hs hupper
      hlower
    exact clearOf_answer hcontent (hnarrowed.cutAll _) hopen hout
      (s.xAt_near hupper hlower)

theorem diamond_flowArea_clearOf :
    diamond.Reachable ∧ ∃ a, diamond.flowArea (besideDiamond 25) = .ok a ∧
      ∀ s ∈ rhombus.edges, s.upper.y < 25 → 25 < s.lower.y →
        a.ClearOf 0 ⟨200, 1000⟩ (s.intercept 25) .left := by
  have hadmits : diamond.Admits (besideDiamond 25) := ⟨by decide, by decide, by decide, by decide⟩
  obtain ⟨a, ha, hclear⟩ := diamond_reachable.flowArea_clearOf hadmits rfl
    (diamond_runsBounded _) rfl rfl
  have hanswer : diamond.flowArea (besideDiamond 25) =
      .ok ⟨⟨.horizontalTb, 75, 25, 125, 75⟩, true, false⟩ := rfl
  cases hanswer.symm.trans ha
  refine ⟨diamond_reachable, _, ha, ?_⟩
  exact hclear rfl _ (List.mem_singleton.2 rfl) rhombus rfl rfl ⟨by decide, by decide, by decide⟩
    (by decide) (by decide)

/-- The line through the middle of the float of `diamond` meets its polygon at vertices only, and
    the band from there runs into the polygon. -/
theorem diamond_vertex_unseen :
    diamond.Reachable ∧ diamond.Admits (besideDiamond 50) ∧
      ¬∀ a, diamond.flowArea (besideDiamond 50) = .ok a → a.isNegative = false →
        ∀ f ∈ diamond.floats, ∀ p, f.shape = some (.polygon p) → p.empty = false →
          p.Inside f.rect → p.blockStart < 50 → 50 < p.blockEnd →
          ∀ s ∈ p.edges, s.upper.y < s.lower.y → s.upper.y ≤ 50 → 50 ≤ s.lower.y →
            a.ClearOf 0 ⟨200, 1000⟩ (s.intercept 50) f.side := by
  refine ⟨diamond_reachable, ⟨by decide, by decide, by decide, by decide⟩, fun hall => ?_⟩
  have hanswer : diamond.flowArea (besideDiamond 50) =
      .ok ⟨⟨.horizontalTb, 0, 50, 200, 50⟩, false, false⟩ := rfl
  have hvertex := hall _ hanswer rfl _ (List.mem_singleton.2 rfl) rhombus rfl rfl
    ⟨by decide, by decide, by decide⟩ (by decide) (by decide) ⟨⟨50, 0⟩, ⟨100, 50⟩⟩ (by decide)
    (by decide) (by decide) (by decide)
  revert hvertex
  decide +kernel

end FloatContext

end FloatLayout
