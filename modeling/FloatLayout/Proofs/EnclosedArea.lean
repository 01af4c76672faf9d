import FloatLayout.Proofs.MovedShape
import FloatLayout.Proofs.PolygonBands
import Mathlib.Data.List.Rotate
import Mathlib.Data.Real.Basic
import Mathlib.Tactic.LinearCombination

/-!
# Polygons without area

A polygon encloses no area if one straight line goes through all of its vertices. Which vertices the
line is found from plays no part, so neither does their order, how often one of them is repeated or
where on the page the polygon stands. Words of 64 bits are wide enough to find out.

## Main definitions

- `StraightLine`, `StraightLine.Through`: the straight lines of the plane and the points on them.
- `Polygon.determinant64?`, `Polygon.hasNoArea64?`: whether vertices enclose an area, computed in
  words of 64 bits.
- `Polygon.collinear_iff_exists_line`: the check of the vertices against one line finds every line.
- `Polygon.ofVertices_empty_iff_line`: which polygons are marked as empty.
-/

namespace FloatLayout

-- ════════════════════════════════════════════════════════════════════════
-- Lines
-- ════════════════════════════════════════════════════════════════════════

/-- The straight line of the points with `a * x + b * y = c`. -/
structure StraightLine where
  a : ℝ
  b : ℝ
  c : ℝ
  /-- Otherwise it would be empty or the whole plane. -/
  proper : a ≠ 0 ∨ b ≠ 0

namespace StraightLine

variable {p q r : Point Length}

/-- A line goes through a point. -/
def Through (line : StraightLine) (p : Point Length) : Prop :=
  line.a * p.x.units + line.b * p.y.units = line.c

/-- The horizontal line through a point. -/
noncomputable def level (p : Point Length) : StraightLine where
  a := 0
  b := 1
  c := p.y.units
  proper := .inr one_ne_zero

theorem level_through (p : Point Length) : (level p).Through p := by
  simp only [Through, level, zero_mul, one_mul, zero_add]

/-- The line through two points. -/
noncomputable def joining (p q : Point Length) (h : p ≠ q) : StraightLine where
  a := q.y.units - p.y.units
  b := p.x.units - q.x.units
  c := (q.y.units - p.y.units) * p.x.units + (p.x.units - q.x.units) * p.y.units
  proper := by
    by_contra hzero
    push Not at hzero
    have hy : (q.y.units : ℝ) = p.y.units := by linear_combination hzero.1
    have hx : (p.x.units : ℝ) = q.x.units := by linear_combination hzero.2
    refine h (Point.units_inj ?_)
    rw [Point.units, Point.units, Int.cast_inj.1 hx, Int.cast_inj.1 hy]

theorem joining_through_iff (h : p ≠ q) :
    (joining p q h).Through r ↔ Polygon.determinant p q r = 0 := by
  rw [← @Int.cast_eq_zero ℝ, Polygon.determinant, Through, joining]
  push_cast
  constructor <;> intro hr <;> linear_combination hr

/-- Three points of a line enclose no area. -/
theorem determinant_eq_zero {line : StraightLine} (hp : line.Through p) (hq : line.Through q)
    (hr : line.Through r) : Polygon.determinant p q r = 0 := by
  rw [← @Int.cast_eq_zero ℝ, Polygon.determinant]
  push_cast
  rw [Through] at hp hq hr
  rcases line.proper with ha | hb
  · refine (mul_eq_zero.1 ?_).resolve_left ha
    linear_combination (hr - hp) * ((q.y.units : ℝ) - p.y.units) -
      (hq - hp) * ((r.y.units : ℝ) - p.y.units)
  · refine (mul_eq_zero.1 ?_).resolve_left hb
    linear_combination (hq - hp) * ((r.x.units : ℝ) - p.x.units) -
      (hr - hp) * ((q.x.units : ℝ) - p.x.units)

end StraightLine

/-- A number, if it fits a signed word. -/
def Word.fit? (w : Word) (n : Int) : Option Int := if w.Fits n then some n else none

theorem Word.fit?_eq_some {w : Word} {n : Int} (h : w.Fits n) : w.fit? n = some n := if_pos h

/-- The farthest out of some positions does not depend on their order. -/
theorem LineSide.foldl_outer_perm (side : LineSide) (a : Length) {l l' : List Length}
    (h : l.Perm l') : l.foldl side.outer a = l'.foldl side.outer a := by
  refine side.eq_of_outside_iff fun p => ?_
  simp only [LineSide.outside_foldl_outer_iff, h.mem_iff]

namespace Polygon

variable {vertices vertices' : List (Point Length)} {p q r : Point Length}

-- ════════════════════════════════════════════════════════════════════════
-- Vertices on a line
-- ════════════════════════════════════════════════════════════════════════

theorem ne_of_baseline? (h : baseline? vertices = some (p, q)) : p ≠ q := by
  cases vertices with
  | nil => cases h
  | cons first rest =>
    obtain ⟨other, hother, hpair⟩ := Option.map_eq_some_iff.1 h
    cases hpair
    have hne := List.find?_some hother
    exact (of_decide_eq_true hne).symm

theorem eq_of_baseline?_eq_none (h : baseline? (p :: vertices) = none) :
    ∀ v ∈ p :: vertices, v = p := by
  have hrest := List.find?_eq_none.1 (Option.map_eq_none_iff.1 h)
  refine List.forall_mem_cons.2 ⟨rfl, fun v hv => ?_⟩
  simpa only [ne_eq, decide_not, Bool.not_eq_true', decide_eq_false_iff_not, not_not]
    using hrest v hv

/-- If any straight line goes through all vertices, it is the one they are checked against. -/
theorem collinear_iff_exists_line :
    Collinear vertices ↔ ∃ line : StraightLine, ∀ v ∈ vertices, line.Through v := by
  constructor
  · intro h
    cases hbase : baseline? vertices with
    | none =>
      cases vertices with
      | nil => exact ⟨.level ⟨0, 0⟩, List.forall_mem_nil _⟩
      | cons p rest =>
        refine ⟨.level p, fun v hv => ?_⟩
        rw [eq_of_baseline?_eq_none hbase v hv]
        exact StraightLine.level_through p
    | some base =>
      have hne : base.1 ≠ base.2 := ne_of_baseline? hbase
      exact ⟨.joining _ _ hne, fun v hv =>
        (StraightLine.joining_through_iff hne).2 (h base hbase v hv)⟩
  · rintro ⟨line, hline⟩ base hbase v hv
    obtain ⟨hp, hq⟩ := mem_of_baseline? hbase
    exact StraightLine.determinant_eq_zero (hline _ hp) (hline _ hq) (hline v hv)

theorem collinear_perm (h : vertices'.Perm vertices) : Collinear vertices' ↔ Collinear vertices := by
  simp only [collinear_iff_exists_line, h.mem_iff]

theorem ofVertices_empty_iff :
    (ofVertices vertices).empty = true ↔ vertices.length < 3 ∨ Collinear vertices := by
  unfold ofVertices
  split
  · next h => exact iff_of_true rfl h
  · next h => exact iff_of_false Bool.false_ne_true h

/-- The order of the vertices changes nothing but their order. -/
theorem ofVertices_perm (h : vertices'.Perm vertices) :
    ofVertices vertices' = { ofVertices vertices with vertices := vertices' } := by
  have hheights := h.map Point.y
  have hmin := LineSide.left.foldl_outer_perm .greatest hheights
  have hmax := LineSide.right.foldl_outer_perm .least hheights
  have hempty : (vertices'.length < 3 ∨ Collinear vertices') ↔
      (vertices.length < 3 ∨ Collinear vertices) := by
    rw [h.length_eq, collinear_perm h]
  unfold ofVertices
  simp only [hempty]
  split
  · rfl
  · exact congrArg₂ (Polygon.mk vertices' false) hmin hmax

-- ════════════════════════════════════════════════════════════════════════
-- Machine words
-- ════════════════════════════════════════════════════════════════════════

/-- The determinant of three points in words of 64 bits, if no difference and no product on the way
    to it leaves its word. -/
def determinant64? (p q r : Point Length) : Option Int := do
  let across ← Word.bits64.fit? (r.x.units - p.x.units)
  let down ← Word.bits64.fit? (r.y.units - p.y.units)
  let baseAcross ← Word.bits64.fit? (q.x.units - p.x.units)
  let baseDown ← Word.bits64.fit? (q.y.units - p.y.units)
  let rising ← Word.bits64.fit? (across * baseDown)
  let falling ← Word.bits64.fit? (down * baseAcross)
  Word.bits64.fit? (rising - falling)

/-- Whether vertices enclose no area, with determinants in words of 64 bits. Those of the first
    vertex that does not lie on the line and of all before it are computed. -/
def hasNoArea64? (vertices : List (Point Length)) : Option Bool :=
  if vertices.length < 3 then some true
  else
    match baseline? vertices with
    | none => some true
    | some (p, q) => vertices.tail.allM fun v => (determinant64? p q v).map (· == 0)

/-- Words of 64 bits hold all that a determinant takes. -/
theorem determinant64?_eq (p q r : Point Length) :
    determinant64? p q r = some (determinant p q r) := by
  have hdistance (a b : Length) : Word.bits64.fit? (a.units - b.units) =
      some (a.units - b.units) := Word.fit?_eq_some (Length.fits64_sub a b)
  have hproduct (a b c d : Length) : Word.bits64.fit? ((a.units - b.units) * (c.units - d.units)) =
      some ((a.units - b.units) * (c.units - d.units)) :=
    Word.fit?_eq_some (Length.fits64_sub_mul_sub a b c d)
  have hdifference : Word.bits64.fit? (determinant p q r) = some (determinant p q r) := by
    refine Word.fit?_eq_some (Word.fits64_of_natAbs_le ?_)
    have := Length.natAbs_sub_mul_sub_le r.x p.x q.y p.y
    have := Length.natAbs_sub_mul_sub_le r.y p.y q.x p.x
    rw [determinant]
    omega
  unfold determinant64?
  simp only [hdistance, hproduct, Option.bind_eq_bind, Option.bind_some]
  exact hdifference

theorem determinant_self_right (p q : Point Length) : determinant p q p = 0 := by
  rw [determinant, Int.sub_self, Int.sub_self, Int.zero_mul, Int.zero_mul]
  rfl

/-- The first vertex lies on the line anyway. -/
theorem collinear_iff_tail (h : baseline? vertices = some (p, q)) :
    Collinear vertices ↔ ∀ v ∈ vertices.tail, determinant p q v = 0 := by
  cases vertices with
  | nil => cases h
  | cons first rest =>
    have hall : Collinear (first :: rest) ↔ ∀ v ∈ first :: rest, determinant p q v = 0 :=
      ⟨fun hline => hline _ h, fun hall base hbase => by cases h.symm.trans hbase; exact hall⟩
    obtain ⟨other, -, hpair⟩ := Option.map_eq_some_iff.1 h
    cases hpair
    rw [hall, List.forall_mem_cons, and_iff_right (determinant_self_right p q), List.tail_cons]

/-- The mark of a polygon is found in words of 64 bits. -/
theorem hasNoArea64?_eq (vertices : List (Point Length)) :
    hasNoArea64? vertices = some (ofVertices vertices).empty := by
  unfold hasNoArea64?
  split
  · next hshort => rw [ofVertices_empty_iff.2 (.inl hshort)]
  · next hlong =>
    split
    · next hbase =>
      have hline : Collinear vertices := fun base h => nomatch hbase.symm.trans h
      rw [ofVertices_empty_iff.2 (.inr hline)]
    · next p q hbase =>
      simp only [determinant64?_eq, Option.map_some]
      refine Eq.trans List.allM_pure (congrArg some (Bool.eq_iff_iff.2 ?_))
      simp only [List.all_eq_true, beq_iff_eq, ofVertices_empty_iff, hlong, false_or,
        collinear_iff_tail hbase]

-- ════════════════════════════════════════════════════════════════════════
-- Empty polygons
-- ════════════════════════════════════════════════════════════════════════

/-- A polygon is marked as empty exactly if it has fewer than three vertices or one straight line
    goes through all of them. Another order of the vertices changes nothing else, a movement of all
    of them keeps the mark, and words of 64 bits are wide enough to find it. -/
theorem ofVertices_empty_iff_line (vertices : List (Point Length)) :
    ((ofVertices vertices).empty = true ↔
        vertices.length < 3 ∨ ∃ line : StraightLine, ∀ v ∈ vertices, line.Through v) ∧
      (∀ n, ofVertices (vertices.rotate n) =
        { ofVertices vertices with vertices := vertices.rotate n }) ∧
      ofVertices vertices.reverse = { ofVertices vertices with vertices := vertices.reverse } ∧
      (∀ dx dy, (∀ v ∈ vertices, v.ShiftExact dx dy) →
        (ofVertices (vertices.map (·.shift dx dy))).empty = (ofVertices vertices).empty) ∧
      hasNoArea64? vertices = some (ofVertices vertices).empty := by
  refine ⟨?_, fun n => ofVertices_perm (vertices.rotate_perm n),
    ofVertices_perm vertices.reverse_perm, fun dx dy hexact => ?_, hasNoArea64?_eq vertices⟩
  · rw [ofVertices_empty_iff, collinear_iff_exists_line]
  · have hmoved : MovedBy dx dy (ofVertices (vertices.map id))
        (ofVertices (vertices.map (·.shift dx dy))) :=
      ofVertices_moved fun v hv => congrArg₂ Point.mk (hexact v hv).x (hexact v hv).y
    rw [hmoved.empty, List.map_id]

/-- Two triangles that meet in a point enclose an area wherever they stand. -/
theorem hourglass_empty_iff_line :
    (¬∃ line : StraightLine, ∀ v ∈ hourglass, line.Through v) ∧
      (ofVertices (hourglass.rotate 3)).empty = false ∧
      (∀ v ∈ hourglass, v.ShiftExact 10 (-20)) ∧
      (ofVertices (hourglass.map (·.shift 10 (-20)))).empty = false := by
  obtain ⟨hline, hrotate, -, hshift, -⟩ := ofVertices_empty_iff_line hourglass
  have harea : (ofVertices hourglass).empty = false := by decide
  have hexact : ∀ v ∈ hourglass, v.ShiftExact 10 (-20) := by
    intro v hv
    constructor <;> revert v <;> decide
  refine ⟨fun h => ?_, ?_, hexact, ?_⟩
  · exact absurd (hline.2 (.inr h)) (by rw [harea]; exact Bool.false_ne_true)
  · rw [hrotate, harea]
  · rw [hshift 10 (-20) hexact, harea]

end Polygon

end FloatLayout
