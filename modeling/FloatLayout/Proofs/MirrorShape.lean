import FloatLayout.Proofs.PixelEdge
import FloatLayout.Proofs.PolygonEdge

/-!
# Shapes in a mirror

A mirror that stands at the origin turns line positions into their negatives and line-left into
line-right. The area of a float has, on one side, the edge that its mirror image has on the other.

## Main definitions

- `Rect.mirror`, `CornerRadii.mirror`, `Polygon.mirror`, `PixelArea.mirror`, `Shape.mirror`,
  `PlacedFloat.mirror`: mirror images.
- `PlacedFloat.Mirrors`: the far edges of a float and of its shape are lengths, so that its mirror
  image is one of a float.
- `Shape.mirror_edge`, `PlacedFloat.mirror_edge`: the edge of a mirror image.

## Design notes

The range of lengths is symmetric, so sums that come back into it mirror well. Only the far edge of a
rectangle that lies out of range has no mirror image.
-/

namespace FloatLayout

namespace Length

variable {a b : Length}

theorem neg_clamp (n : Int) : -clamp n = clamp (-n) := by
  apply ext
  simp only [units_neg, units_clamp]
  omega

theorem neg_add (a b : Length) : -(a + b) = -a + -b := by
  apply ext
  simp only [units_neg, units_add]
  omega

theorem neg_sub_neg (a b : Length) : -a - -b = b - a := by
  apply ext
  simp only [units_neg, units_sub]
  omega

theorem neg_lt_neg_iff : -a < -b ↔ b < a := by
  simp only [lt_def, units_neg]
  omega

end Length

-- ════════════════════════════════════════════════════════════════════════
-- Sides
-- ════════════════════════════════════════════════════════════════════════

namespace LineSide

variable (side : LineSide)

@[simp] theorem opposite_opposite : side.opposite.opposite = side := by cases side <;> rfl

theorem outer_neg (a b : Length) : side.opposite.outer (-a) (-b) = -side.outer a b := by
  cases side <;>
    simp only [opposite, outer, Length.ext_iff, Length.units_min, Length.units_max,
      Length.units_neg] <;>
    omega

theorem innermost_opposite : side.opposite.innermost = -side.innermost := by cases side <;> rfl

theorem inward_neg (position distance : Length) :
    side.opposite.inward (-position) distance = -side.inward position distance := by
  cases side <;> simp only [opposite, inward, Length.ext_iff, Length.units_neg, Length.units_add,
    Length.units_sub] <;> omega

theorem outward_neg (position distance : Length) :
    side.opposite.outward (-position) distance = -side.outward position distance := by
  cases side <;> simp only [opposite, outward, Length.ext_iff, Length.units_neg, Length.units_add,
    Length.units_sub] <;> omega

/-- The outermost of the mirror images of positions is the mirror image of the outermost. -/
theorem foldlM_outer_neg {α : Type} {l : List α} {f g : α → Except Fault Length}
    (h : ∀ a ∈ l, g a = (f a).map (- ·)) (x : Length) :
    l.foldlM (fun found a => return side.opposite.outer found (← g a)) (-x) =
      (l.foldlM (fun found a => return side.outer found (← f a)) x).map (- ·) := by
  induction l generalizing x with
  | nil => rfl
  | cons a rest ih =>
    rw [List.foldlM_cons, List.foldlM_cons, h a List.mem_cons_self]
    cases f a with
    | error fault => rfl
    | ok y =>
      change rest.foldlM _ (side.opposite.outer (-x) (-y)) = _
      rw [outer_neg]
      exact ih (fun a' ha' => h a' (List.mem_cons_of_mem a ha')) _

end LineSide

-- ════════════════════════════════════════════════════════════════════════
-- Boxes and ellipses
-- ════════════════════════════════════════════════════════════════════════

/-- The mirror image of a point. -/
def Point.mirror (p : Point Length) : Point Length := ⟨-p.x, p.y⟩

namespace Rect

variable {r : Rect Length}

/-- The mirror image of a rectangle. -/
def mirror (r : Rect Length) : Rect Length := { r with x := -r.right }

/-- The right edge of a rectangle is a length. -/
def RightExact (r : Rect Length) : Prop := r.right.units = r.x.units + r.width.units

instance : Decidable r.RightExact := inferInstanceAs (Decidable (_ = _))

theorem RightExact.mirror_lineEdge (h : r.RightExact) (side : LineSide) :
    r.mirror.lineEdge side.opposite = -r.lineEdge side := by
  have := r.x.lower
  have := r.x.upper
  unfold RightExact at h
  cases side with
  | left =>
    change -r.right + r.width = -r.x
    simp only [Length.ext_iff, Length.units_add, Length.units_neg]
    omega
  | right => rfl

end Rect

/-- The mirror images of the corners of a box. -/
def CornerRadii.mirror (radii : CornerRadii Length) : CornerRadii Length :=
  ⟨radii.topRight, radii.topLeft, radii.bottomLeft, radii.bottomRight⟩

theorem CornerRadii.ofSide_mirror (radii : CornerRadii Length) (side : LineSide) :
    radii.mirror.ofSide side.opposite = radii.ofSide side := by cases side <;> rfl

/-- The mirror image of a rounded box. -/
def RoundedBox.mirror (b : RoundedBox) : RoundedBox := ⟨b.rect.mirror, b.radii.map (·.mirror)⟩

theorem RoundedBox.mirror_edge {b : RoundedBox} (h : b.rect.RightExact) (side : LineSide)
    (band : Band) : b.mirror.edge side.opposite band = (b.edge side band).map (- ·) := by
  have hedge := h.mirror_lineEdge side
  rcases b with ⟨rect, _ | radii⟩
  · exact congrArg Except.ok hedge
  · have hcorners := radii.ofSide_mirror side
    simp only [edge, mirror, Option.map_some, hcorners, hedge]
    refine bind_eq_map_bind fun indent => ?_
    rw [LineSide.inward_neg]
    rfl

/-- The mirror image of an ellipse. -/
def Ellipse.mirror (e : Ellipse) : Ellipse := { e with center := e.center.mirror }

theorem Ellipse.mirror_edge (e : Ellipse) (side : LineSide) (band : Band) :
    e.mirror.edge side.opposite band = (e.edge side band).map (- ·) := by
  refine bind_eq_map_bind fun indent => ?_
  change Except.ok (side.opposite.inward (side.opposite.outward (-e.center.x) e.radii.width) indent) =
    Except.ok (-side.inward (side.outward e.center.x e.radii.width) indent)
  rw [LineSide.outward_neg, LineSide.inward_neg]

-- ════════════════════════════════════════════════════════════════════════
-- Polygons
-- ════════════════════════════════════════════════════════════════════════

namespace Segment

variable {s : Segment} {y : Length}

/-- The mirror image of an edge. -/
def mirror (s : Segment) : Segment := ⟨s.upper.mirror, s.lower.mirror⟩

theorem between_mirror (p q : Point Length) :
    between p.mirror q.mirror = (between p q).mirror := by
  unfold between
  split
  · next h => rw [if_pos (show q.y < p.y from h)]; rfl
  · next h => rw [if_neg (show ¬q.y < p.y from h)]; rfl

/-- Positions on an edge are rounded towards its upper end on both sides of a mirror. -/
theorem xAt_mirror (s : Segment) (y : Length) : s.mirror.xAt y = -s.xAt y := by
  unfold xAt
  rw [Length.neg_clamp]
  have hacross : (y.units - s.upper.y.units) * (-s.lower.x.units - -s.upper.x.units) =
      -((y.units - s.upper.y.units) * (s.lower.x.units - s.upper.x.units)) := by
    rw [← Int.mul_neg]
    congr 1
    omega
  change Length.clamp (-s.upper.x.units +
    ((y.units - s.upper.y.units) * (-s.lower.x.units - -s.upper.x.units)).tdiv
      (s.lower.y.units - s.upper.y.units)) = _
  rw [hacross, Int.neg_tdiv, Int.neg_add]

theorem edgeIn_mirror {band : Band} (h : s.Enters band) (side : LineSide) :
    s.mirror.edgeIn side.opposite band = (s.edgeIn side band).map (- ·) := by
  have hmirror : s.mirror.Enters band := h
  have hentry : s.mirror.entry band = s.entry band := rfl
  have hexit : s.mirror.exit band = s.exit band := rfl
  rw [edgeIn_eq h, edgeIn_eq hmirror, xAt_mirror, xAt_mirror, LineSide.outer_neg, hentry, hexit]
  rfl

end Segment

namespace Polygon

/-- The mirror image of a polygon. -/
def mirror (p : Polygon) : Polygon := { p with vertices := p.vertices.map (·.mirror) }

theorem edges_mirror (p : Polygon) : p.mirror.edges = p.edges.map (·.mirror) := by
  unfold edges mirror
  dsimp only
  rw [← List.map_tail, ← List.map_take, ← List.map_append, List.zipWith_map, List.map_zipWith]
  simp only [Segment.between_mirror]

theorem mirror_edge (p : Polygon) (side : LineSide) (band : Band) :
    p.mirror.edge side.opposite band = (p.edge side band).map (- ·) := by
  have hinside : p.mirror.edges.filter (·.Enters band) =
      (p.edges.filter (·.Enters band)).map (·.mirror) := by
    rw [edges_mirror, List.filter_map]
    rfl
  refine bind_eq_map_bind fun _ => bind_eq_map_bind fun _ => ?_
  rw [hinside, List.foldlM_map, LineSide.innermost_opposite]
  exact side.foldlM_outer_neg (fun s hs =>
    Segment.edgeIn_mirror (of_decide_eq_true (List.mem_filter.1 hs).2) side) side.innermost

end Polygon

-- ════════════════════════════════════════════════════════════════════════
-- Pixel areas
-- ════════════════════════════════════════════════════════════════════════

namespace PixelRun

variable {r : PixelRun}

/-- The mirror image of a run. -/
def mirror (r : PixelRun) : PixelRun := { r with x := .clamp (-(r.x.units + r.width)) }

/-- The far edges of a run fit their word, and the one along the line is a length. -/
def Mirrors (r : PixelRun) : Prop :=
  r.Bounded ∧ -1073741823 ≤ r.x.units + r.width ∧ r.x.units + r.width ≤ 1073741823

theorem Mirrors.mirror_bounded (h : r.Mirrors) : r.mirror.Bounded := by
  obtain ⟨⟨-, hbottom⟩, hright⟩ := h
  have := r.x.lower
  have := r.x.upper
  refine ⟨?_, hbottom⟩
  simp only [mirror, Length.units_clamp, Word.Fits, Word.limit]
  omega

theorem Mirrors.mirror_lineEdge (h : r.Mirrors) (side : LineSide) :
    r.mirror.lineEdge side.opposite = (r.lineEdge side).map (- ·) := by
  rw [lineEdge_eq h.mirror_bounded, lineEdge_eq h.1]
  refine congrArg Except.ok ?_
  obtain ⟨-, hright⟩ := h
  have := r.x.lower
  have := r.x.upper
  cases side with
  | left =>
    simp only [LineSide.opposite, far, mirror, Length.ext_iff, Length.units_clamp, Length.units_neg]
    omega
  | right => exact (Length.neg_clamp _).symm

end PixelRun

namespace PixelArea

variable {a : PixelArea}

/-- The mirror image of an area. -/
def mirror (a : PixelArea) : PixelArea := { a with runs := a.runs.map (·.mirror) }

theorem mirror_edge (h : ∀ r ∈ a.runs, r.Mirrors) (side : LineSide) (band : Band) :
    a.mirror.edge side.opposite band = (a.edge side band).map (- ·) := by
  have hfirst : firstReaching a.mirror.runs band.start 0 a.mirror.runs.size =
      firstReaching a.runs band.start 0 a.runs.size := by
    rw [show a.mirror.runs.size = a.runs.size from Array.size_map]
    exact firstReaching_map (f := PixelRun.mirror) (fun _ _ => rfl) (fun _ _ => Iff.rfl) 0 _
  have hinside : ∀ first, (a.mirror.runs.toList.drop first).takeWhile (·.y ≤ band.stop) =
      ((a.runs.toList.drop first).takeWhile (·.y ≤ band.stop)).map (·.mirror) := by
    intro first
    rw [mirror, Array.toList_map, ← List.map_drop, List.takeWhile_map]
    rfl
  refine bind_eq_map_bind fun _ => ?_
  rw [hfirst]
  refine bind_eq_map_bind fun first => ?_
  rw [hinside, List.foldlM_map, LineSide.innermost_opposite]
  refine side.foldlM_outer_neg (fun r hr => ?_) side.innermost
  have hmem := List.mem_of_mem_drop ((List.takeWhile_sublist _).subset hr)
  exact (h r (Array.mem_toList_iff.1 hmem)).mirror_lineEdge side

end PixelArea

-- ════════════════════════════════════════════════════════════════════════
-- Shapes and floats
-- ════════════════════════════════════════════════════════════════════════

namespace Shape

/-- The mirror image of a shape. -/
def mirror : Shape → Shape
  | roundedBox b => roundedBox b.mirror
  | ellipse e => ellipse e.mirror
  | polygon p => polygon p.mirror
  | pixels a => pixels a.mirror

/-- The far edges of a shape are lengths. Ellipses and polygons are given by their centres and
    vertices and have none. -/
def Mirrors : Shape → Prop
  | roundedBox b => b.rect.RightExact
  | pixels a => ∀ r ∈ a.runs, r.Mirrors
  | ellipse _ | polygon _ => True

variable {shape : Shape}

theorem mirror_edge (h : shape.Mirrors) (side : LineSide) (band : Band) :
    shape.mirror.edge side.opposite band = (shape.edge side band).map (- ·) := by
  cases shape with
  | roundedBox b => exact RoundedBox.mirror_edge h side band
  | ellipse e => exact e.mirror_edge side band
  | polygon p => exact p.mirror_edge side band
  | pixels a => exact PixelArea.mirror_edge h side band

@[simp] theorem mirror_blockStart (shape : Shape) : shape.mirror.blockStart = shape.blockStart := by
  cases shape <;> rfl

@[simp] theorem mirror_blockEnd (shape : Shape) : shape.mirror.blockEnd = shape.blockEnd := by
  cases shape <;> rfl

@[simp] theorem mirror_isEmpty (shape : Shape) : shape.mirror.isEmpty = shape.isEmpty := by
  cases shape with
  | roundedBox b => rfl
  | ellipse e => rfl
  | polygon p => rfl
  | pixels a => exact decide_eq_decide.2 Array.map_eq_empty_iff

end Shape

namespace PlacedFloat

variable {f : PlacedFloat} {area : FloatArea}

/-- The mirror image of a float. -/
def mirror (f : PlacedFloat) : PlacedFloat :=
  { f with
    side := f.side.opposite
    rect := f.rect.mirror
    leftEnd := f.rightEnd
    rightEnd := f.leftEnd
    shape := f.shape.map (·.mirror) }

/-- The far edges of a float and of its shape are lengths. -/
structure Mirrors (f : PlacedFloat) : Prop where
  rect : f.rect.RightExact
  shape : ∀ shape ∈ f.shape, shape.Mirrors

theorem areaShape_mirror (f : PlacedFloat) (area : FloatArea) :
    f.mirror.areaShape area = (f.areaShape area).map (·.mirror) := by cases area <;> rfl

theorem mirror_edge (h : f.Mirrors) (side : LineSide) (band : Band) :
    f.mirror.edge area side.opposite band = (f.edge area side band).map (- ·) := by
  have hbox : f.mirror.rect.lineEdge side.opposite = -f.rect.lineEdge side :=
    h.rect.mirror_lineEdge side
  unfold edge
  rw [areaShape_mirror]
  cases hshape : f.areaShape area with
  | none => exact congrArg Except.ok hbox
  | some shape =>
    have hmirrors : shape.Mirrors := by
      cases area with
      | marginBox => cases hshape
      | shapeOutside => exact h.shape shape hshape
    simp only [Option.map_some, Shape.mirror_edge hmirrors, hbox]
    cases shape.edge side band with
    | error fault => rfl
    | ok x => exact congrArg Except.ok (side.opposite.outer_neg _ _)

@[simp] theorem mirror_blockStart (f : PlacedFloat) (area : FloatArea) :
    f.mirror.blockStart area = f.blockStart area := by
  unfold blockStart
  rw [areaShape_mirror]
  cases f.areaShape area with
  | none => rfl
  | some shape => exact congrArg (max f.rect.y) shape.mirror_blockStart

@[simp] theorem mirror_blockEnd (f : PlacedFloat) (area : FloatArea) :
    f.mirror.blockEnd area = f.blockEnd area := by
  unfold blockEnd
  rw [areaShape_mirror]
  cases f.areaShape area with
  | none => rfl
  | some shape => exact congrArg (min f.rect.bottom) shape.mirror_blockEnd

@[simp] theorem mirror_isEmpty (f : PlacedFloat) (area : FloatArea) :
    f.mirror.isEmpty area = f.isEmpty area := by
  unfold isEmpty
  rw [areaShape_mirror]
  cases f.areaShape area with
  | none => rfl
  | some shape => exact shape.mirror_isEmpty

theorem mirror_allAbove (f : PlacedFloat) (position : Length) :
    f.mirror.AllAbove position ↔ f.AllAbove position := and_comm

end PlacedFloat

end FloatLayout
