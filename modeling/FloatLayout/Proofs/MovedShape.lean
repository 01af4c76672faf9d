import FloatLayout.Proofs.BaseDirection
import FloatLayout.Proofs.Outermost
import Mathlib.Data.List.Find

/-!
# Moved rectangles and shapes

A movement along the line and across it, followed through the conversions between flow-relative,
physical and line-relative space in whole numbers, and the shapes that differ by one.

## Main definitions

- `Logical.Rect.moved`: a rectangle moved towards line-right and block-end.
- `WritingMode.onPage`: the movement on the page.
- `Point.ShiftExact`: an offset and a movement together are within the range of lengths.
- `Shape.MovedBy`: two shapes of one kind that differ by a movement.
- `Shape.MovedBy.shift_eq`: a shape at a moved offset is the moved shape at the offset.

## Design notes

The sum of a position and an offset may leave the range of lengths. The moved position and the moved
offset then come back to the same end of it, so that only the steps before have to be exact.
-/

namespace FloatLayout

/-- A position along a line, moved towards line-right. -/
def WritingMode.along {α : Type} [Add α] [Sub α] (m : WritingMode) (position distance : α) : α :=
  if m.isLtr then position + distance else position - distance

/-- A rectangle moved towards line-right and block-end. -/
def Logical.Rect.moved {α : Type} [Add α] [Sub α] (r : Logical.Rect α) (dx dy : α) :
    Logical.Rect α :=
  { r with inlineStart := r.mode.along r.inlineStart dx, blockStart := r.blockStart + dy }

/-- The movement on the page that is one by `dx` towards line-right and by `dy` towards
    block-end. -/
def WritingMode.onPage (m : WritingMode) (dx dy : Int) : Point Int where
  x := if m.vertical then if m.verticalLr then dy else -dy else dx
  y := if m.vertical then if m.inlineReversed then -dx else dx else dy

section WholeNumbers

variable (r : Logical.Rect Int) (m : WritingMode) (rect : Rect Int) (p : Point Int)
  (container : Size Int) (dx dy : Int)

theorem lineEdge_moved (side : LineSide) :
    (r.moved dx dy).lineEdge container side = r.lineEdge container side + dx := by
  rcases r with ⟨⟨_ | _, _, _, _, _, _⟩, ri, rb, rw, rh⟩ <;> cases side <;>
    simp [Logical.Rect.moved, WritingMode.along, Logical.Rect.lineEdge, Logical.Rect.lineLeft,
      Logical.Rect.lineRight, Logical.Rect.inlineEnd, WritingMode.isLtr,
      WritingMode.inlineSizeOf] <;> omega

theorem rect_moved :
    LineRelative.rect (r.moved dx dy) container = (LineRelative.rect r container).shift dx dy := by
  have hleft := lineEdge_moved r container dx dy .left
  exact congrArg (fun left => (⟨left, r.blockStart + dy, r.inlineSize, r.blockSize⟩ : Rect Int))
    hleft

/-- Shrinking a rectangle and moving it may be done in either order. -/
theorem shrinkAll_moved (insets : List (Sides Int)) :
    (r.moved dx dy).shrinkAll insets = (r.shrinkAll insets).moved dx dy := by
  induction insets generalizing r with
  | nil => rfl
  | cons sides rest ih =>
    have hshrink : (r.moved dx dy).shrink (.ofPhysical r.mode sides) =
        (r.shrink (.ofPhysical r.mode sides)).moved dx dy := by
      cases hltr : r.mode.isLtr <;>
        simp [Logical.Rect.moved, Logical.Rect.shrink, WritingMode.along, hltr] <;> omega
    change ((r.moved dx dy).shrink (.ofPhysical r.mode sides)).shrinkAll rest = _
    rw [hshrink, ih]
    rfl

theorem toPhysical_moved :
    (r.moved dx dy).toPhysical container =
      (r.toPhysical container).shift (r.mode.onPage dx dy).x (r.mode.onPage dx dy).y := by
  rcases r with ⟨⟨_ | _, _ | _, _ | _, _, _, _ | _⟩, ri, rb, rw, rh⟩ <;>
    simp [Logical.Rect.moved, WritingMode.along, Logical.Rect.toPhysical, WritingMode.onPage,
      Logical.Rect.inlineEnd, Logical.Rect.blockEnd, WritingMode.isLtr, WritingMode.isInlineTb,
      Rect.shift] <;> omega

theorem rect_ofPhysical_shift :
    LineRelative.rect (.ofPhysical m (rect.shift (m.onPage dx dy).x (m.onPage dx dy).y) container)
        container =
      (LineRelative.rect (.ofPhysical m rect container) container).shift dx dy := by
  rw [LineRelative.rect, LineRelative.rect, lineLeft_ofPhysical, lineLeft_ofPhysical]
  rcases m with ⟨_, _ | _, _ | _, _, _, _ | _⟩ <;>
    simp [WritingMode.onPage, Logical.Rect.ofPhysical, Rect.shift, Rect.right, Rect.bottom] <;>
    omega

theorem point_shift :
    LineRelative.point m (p.shift (m.onPage dx dy).x (m.onPage dx dy).y) container =
      (LineRelative.point m p container).shift dx dy := by
  simp only [LineRelative.point]
  rw [lineRelative_ofPhysical, lineRelative_ofPhysical]
  rcases m with ⟨_, _ | _, _ | _, _, _, _ | _⟩ <;>
    simp [WritingMode.onPage, Logical.Point.ofPhysical, Point.shift] <;> omega

end WholeNumbers

-- ════════════════════════════════════════════════════════════════════════
-- Shapes that differ by a movement
-- ════════════════════════════════════════════════════════════════════════

variable {a b o d : Length} {dx dy : Length} {offset : Point Length}

/-- Of two positions that differ by a distance, the one behind moved by an offset and the one before
    it moved by the offset and the distance are the same, even at the end of the range of
    lengths. -/
theorem Length.add_add_eq (hmoved : b.units = a.units + d.units)
    (hoffset : (o + d).units = o.units + d.units) : a + (o + d) = b + o := by
  apply Length.ext
  rw [Length.units_add, hoffset, Length.units_add, hmoved]
  omega

theorem Length.add_add_neg (h : (a + d).units = a.units + d.units) : a + d + -d = a := by
  have := a.lower
  have := a.upper
  simp only [Length.ext_iff, Length.units_add, Length.units_neg] at *
  omega

/-- A position moved along the line and back is where it was. -/
theorem WritingMode.along_along_neg {m : WritingMode}
    (h : (m.along a d).units = m.along a.units d.units) : m.along (m.along a d) (-d) = a := by
  have := a.lower
  have := a.upper
  cases hltr : m.isLtr with
  | true =>
    simp only [along, hltr, if_true] at h ⊢
    exact Length.add_add_neg h
  | false =>
    simp only [along, hltr, Bool.false_eq_true, if_false, Length.ext_iff, Length.units_sub,
      Length.units_neg] at h ⊢
    omega

/-- The sum of an offset and a movement is within the range of lengths. -/
structure Point.ShiftExact (offset : Point Length) (dx dy : Length) : Prop where
  x : (offset.x + dx).units = offset.x.units + dx.units
  y : (offset.y + dy).units = offset.y.units + dy.units

theorem Point.ShiftExact.shift_point (h : offset.ShiftExact dx dy) {p p' : Point Length}
    (hp : p'.units = p.units.shift dx.units dy.units) :
    p.shift (offset.x + dx) (offset.y + dy) = p'.shift offset.x offset.y := by
  simp only [units, shift, Point.mk.injEq] at hp
  simp only [shift, Length.add_add_eq hp.1 h.x, Length.add_add_eq hp.2 h.y]

theorem Point.ShiftExact.shift_rect (h : offset.ShiftExact dx dy) {r r' : Rect Length}
    (hr : r'.units = r.units.shift dx.units dy.units) :
    r.shift (offset.x + dx) (offset.y + dy) = r'.shift offset.x offset.y := by
  rcases r with ⟨x, y, width, height⟩
  rcases r' with ⟨x', y', width', height'⟩
  simp only [Rect.units, Rect.shift, Rect.mk.injEq, ← Length.ext_iff] at hr
  obtain ⟨hx, hy, rfl, rfl⟩ := hr
  simp only [Rect.shift, Length.add_add_eq hx h.x, Length.add_add_eq hy h.y]

namespace Polygon

/-- Two polygons whose vertices differ by a movement. The block range of a polygon without area is
    not that of its vertices. -/
structure MovedBy (dx dy : Length) (p p' : Polygon) : Prop where
  vertices : p'.vertices.map Point.units = p.vertices.map fun v => v.units.shift dx.units dy.units
  empty : p'.empty = p.empty
  range : p.empty = false → p'.blockStart.units = p.blockStart.units + dy.units ∧
    p'.blockEnd.units = p.blockEnd.units + dy.units
  idle : p.empty = true → ∀ q ∈ [p, p'], q.blockStart = .greatest ∧ q.blockEnd = .least

/-- Moving three points leaves the area between them as it is. -/
theorem determinant_shift {p q r p' q' r' : Point Length} {dx dy : Int}
    (hp : p'.units = p.units.shift dx dy) (hq : q'.units = q.units.shift dx dy)
    (hr : r'.units = r.units.shift dx dy) : determinant p' q' r' = determinant p q r := by
  simp only [Point.units, Point.shift, Point.mk.injEq] at hp hq hr
  simp only [determinant, hp, hq, hr, Int.add_sub_add_right]

section Vertices

variable {l : List (Point Length)} {f g : Point Length → Point Length}

theorem collinear_map_cons_iff {p : Point Length} {rest : List (Point Length)} :
    Collinear ((p :: rest).map f) ↔ ∀ q ∈ rest.find? fun q => f q ≠ f p, ∀ v ∈ p :: rest,
      determinant (f p) (f q) (f v) = 0 := by
  have hline : baseline? ((p :: rest).map f) =
      (rest.find? fun q => f q ≠ f p).map fun q => (f p, f q) := by
    change ((rest.map f).find? (· ≠ f p)).map (f p, ·) = _
    rw [List.find?_map, Option.map_map]
    rfl
  simp only [Collinear, hline, List.forall_mem_map]
  cases rest.find? fun q => f q ≠ f p with
  | none => simp
  | some q => simp

theorem collinear_moved (h : ∀ v ∈ l, (g v).units = (f v).units.shift dx.units dy.units) :
    Collinear (l.map g) ↔ Collinear (l.map f) := by
  cases l with
  | nil => exact Iff.rfl
  | cons p rest =>
    have hp := h p List.mem_cons_self
    have hsame : ∀ q ∈ rest, decide (g q ≠ g p) = decide (f q ≠ f p) := by
      intro q hq
      have hq := h q (List.mem_cons_of_mem p hq)
      have hiff : g q = g p ↔ f q = f p := by
        constructor
        · intro heq
          rw [heq, hp] at hq
          simp only [Point.units, Point.shift, Point.mk.injEq, Int.add_left_inj] at hq
          exact Point.units_inj (by rw [Point.units, Point.units, hq.1, hq.2])
        · intro heq
          exact Point.units_inj (by rw [hq, hp, heq])
      simp only [ne_eq, hiff]
    rw [collinear_map_cons_iff, collinear_map_cons_iff, List.find?_congr hsame]
    refine forall₂_congr fun q hq => forall₂_congr fun v hv => ?_
    have hq := h q (List.mem_cons_of_mem p (List.mem_of_find?_eq_some hq))
    rw [determinant_shift hp hq (h v hv)]

theorem ofVertices_moved (h : ∀ v ∈ l, (g v).units = (f v).units.shift dx.units dy.units) :
    MovedBy dx dy (ofVertices (l.map f)) (ofVertices (l.map g)) := by
  have hcollinear := collinear_moved h
  have hheight : ∀ v ∈ l, (g v).y.units = (f v).y.units + dy.units := fun v hv =>
    congrArg Point.y (h v hv)
  have hvertices : ((l.map g).map Point.units) =
      (l.map f).map fun v => v.units.shift dx.units dy.units := by
    rw [List.map_map, List.map_map]
    exact List.map_congr_left h
  by_cases hempty : l.length < 3 ∨ Collinear (l.map f)
  · have hempty' : l.length < 3 ∨ Collinear (l.map g) := hempty.imp_right hcollinear.2
    rw [ofVertices, ofVertices, List.length_map, List.length_map, if_pos hempty, if_pos hempty']
    refine ⟨hvertices, rfl, nofun, fun _ q hq => ?_⟩
    simp only [List.mem_cons, List.not_mem_nil, or_false] at hq
    rcases hq with rfl | rfl <;> exact ⟨rfl, rfl⟩
  · have hempty' : ¬(l.length < 3 ∨ Collinear (l.map g)) := mt (Or.imp_right hcollinear.1) hempty
    rw [ofVertices, ofVertices, List.length_map, List.length_map, if_neg hempty, if_neg hempty']
    have hl : l ≠ [] := by
      rintro rfl
      exact hempty (.inl (Nat.zero_lt_succ 2))
    have hrange : ∀ side : LineSide,
        (((l.map g).map Point.y).foldl side.outer side.innermost).units =
          (((l.map f).map Point.y).foldl side.outer side.innermost).units + dy.units := by
      intro side
      rw [List.map_map, List.map_map]
      exact side.foldl_outer_innermost_moved hl hheight
    exact ⟨hvertices, rfl, fun _ => ⟨hrange .left, hrange .right⟩, nofun⟩

end Vertices

theorem MovedBy.shift_vertices {p p' : Polygon} (h : p.MovedBy dx dy p')
    (hoffset : offset.ShiftExact dx dy) :
    p.vertices.map (·.shift (offset.x + dx) (offset.y + dy)) =
      p'.vertices.map (·.shift offset.x offset.y) := by
  have hvertices := h.vertices
  refine List.ext_getElem ?_ fun n hn hn' => ?_
  · simpa only [List.length_map] using congrArg List.length hvertices.symm
  · rw [List.length_map] at hn hn'
    have hget := List.getElem_of_eq hvertices (i := n) (by simpa only [List.length_map] using hn')
    rw [List.getElem_map, List.getElem_map] at hget ⊢
    exact hoffset.shift_point hget

end Polygon

namespace Shape

variable {s s' : Shape}

/-- Two shapes of one kind that differ by a movement. -/
inductive MovedBy (dx dy : Length) : Shape → Shape → Prop
  | roundedBox {b b' : RoundedBox} (rect : b'.rect.units = b.rect.units.shift dx.units dy.units)
      (radii : b'.radii = b.radii) : MovedBy dx dy (roundedBox b) (roundedBox b')
  | ellipse {e e' : Ellipse} (center : e'.center.units = e.center.units.shift dx.units dy.units)
      (radii : e'.radii = e.radii) : MovedBy dx dy (ellipse e) (ellipse e')
  | polygon {p p' : Polygon} (moved : p.MovedBy dx dy p') : MovedBy dx dy (polygon p) (polygon p')

/-- The shape, where a polygon without area has the block range that it was made with. No question
    for a flow area reads that range. -/
def settled : Shape → Shape
  | polygon p =>
    polygon (if p.empty then { p with blockStart := .greatest, blockEnd := .least } else p)
  | s => s

/-- Moving the block range of a polygon without area keeps to the range of lengths. -/
def IdleExact (dy : Length) : Shape → Prop
  | polygon p => p.empty = true →
    (p.blockStart + dy).units = p.blockStart.units + dy.units ∧
      (p.blockEnd + dy).units = p.blockEnd.units + dy.units
  | _ => True

/-- A shape at a moved offset is the moved shape, but for the block range of a polygon without
    area. -/
theorem MovedBy.shift_settled (h : s.MovedBy dx dy s') (hoffset : offset.ShiftExact dx dy) :
    (s.shift (offset.x + dx) (offset.y + dy)).settled = (s'.shift offset.x offset.y).settled := by
  cases h with
  | roundedBox hrect hradii =>
    simp only [shift, RoundedBox.shift, settled, hoffset.shift_rect hrect, hradii]
  | ellipse hcenter hradii =>
    simp only [shift, Ellipse.shift, settled, hoffset.shift_point hcenter, hradii]
  | @polygon p p' hmoved =>
    have hvertices := hmoved.shift_vertices hoffset
    cases hempty : p.empty with
    | true => simp [shift, Polygon.shift, settled, hvertices, hmoved.empty, hempty]
    | false =>
      obtain ⟨hstart, hend⟩ := hmoved.range hempty
      simp [shift, Polygon.shift, settled, hvertices, hmoved.empty, hempty,
        Length.add_add_eq hstart hoffset.y, Length.add_add_eq hend hoffset.y]

/-- A shape at a moved offset is the moved shape. -/
theorem MovedBy.shift_eq (h : s.MovedBy dx dy s') (hoffset : offset.ShiftExact dx dy)
    (hidle : s.IdleExact (offset.y + dy)) (hidle' : s'.IdleExact offset.y) :
    s.shift (offset.x + dx) (offset.y + dy) = s'.shift offset.x offset.y := by
  cases h with
  | roundedBox hrect hradii => simp only [shift, RoundedBox.shift, hoffset.shift_rect hrect, hradii]
  | ellipse hcenter hradii => simp only [shift, Ellipse.shift, hoffset.shift_point hcenter, hradii]
  | @polygon p p' hmoved =>
    have hvertices := hmoved.shift_vertices hoffset
    have hrange : p.blockStart + (offset.y + dy) = p'.blockStart + offset.y ∧
        p.blockEnd + (offset.y + dy) = p'.blockEnd + offset.y := by
      cases hempty : p.empty with
      | false =>
        obtain ⟨hstart, hend⟩ := hmoved.range hempty
        exact ⟨Length.add_add_eq hstart hoffset.y, Length.add_add_eq hend hoffset.y⟩
      | true =>
        -- The range reaches from one end of the range of lengths to the other, so that only no
        -- movement at all keeps it there.
        obtain ⟨hstart, hend⟩ := hidle hempty
        obtain ⟨hstart', hend'⟩ := hidle' (hmoved.empty.trans hempty)
        obtain ⟨hgreatest, hleast⟩ := hmoved.idle hempty p List.mem_cons_self
        obtain ⟨hgreatest', hleast'⟩ := hmoved.idle hempty p' (by simp)
        rw [hgreatest] at hstart ⊢
        rw [hleast] at hend ⊢
        rw [hgreatest'] at hstart' ⊢
        rw [hleast'] at hend' ⊢
        rw [Length.units_add, Length.units_greatest] at hstart hstart'
        rw [Length.units_add, Length.units_least] at hend hend'
        have hsame : offset.y + dy = offset.y := Length.ext (by omega)
        rw [hsame]
        exact ⟨rfl, rfl⟩
    simp only [shift, Polygon.shift, hvertices, hmoved.empty, hrange]

end Shape

end FloatLayout
