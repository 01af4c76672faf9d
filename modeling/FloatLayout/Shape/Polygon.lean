import FloatLayout.LineSide
import FloatLayout.Physical
import FloatLayout.Word

/-!
# Polygons

The float area of a polygon, in line-relative space. A polygon is given by its vertices in order;
the last one is joined to the first, edges may cross, and vertices may be repeated.

## Main definitions

- `Segment`: an edge, from its upper to its lower end.
- `Segment.crossing`: where an edge meets a line.
- `Polygon.ofVertices`: the polygon of a list of vertices.
- `Polygon.Collinear`: the vertices lie on one line.
- `Polygon.edge`: the edge of the polygon in a band.

## Design notes

A polygon keeps its block range and whether it encloses any area as they were found when it was
made, because moving it to the end of the range of lengths may flatten it.
-/

namespace FloatLayout

-- ════════════════════════════════════════════════════════════════════════
-- Segments
-- ════════════════════════════════════════════════════════════════════════

/-- A straight edge, whose upper end is not below its lower end. -/
structure Segment where
  upper : Point Length
  lower : Point Length
deriving DecidableEq

namespace Segment

/-- The edge between two points. -/
def between (p q : Point Length) : Segment := if q.y < p.y then ⟨q, p⟩ else ⟨p, q⟩

/-- Where an edge meets the line at `y`, rounded towards its upper end. -/
def crossing (s : Segment) (y : Length) : Except Fault Length := do
  require (s.upper.y ≤ y ∧ y ≤ s.lower.y) .outsideSegment
  require (s.upper.y ≠ s.lower.y) .horizontalSegment
  let down := y.units - s.upper.y.units
  let along := s.lower.x.units - s.upper.x.units
  let across ← Word.checked64 .multiply (down * along)
  let height := s.lower.y.units - s.upper.y.units
  return .clamp (← Word.checked64 .add (s.upper.x.units + across.tdiv height))

/-- An edge that runs through the inside of a band. A horizontal edge does not: its ends belong to
    the neighbouring edges. -/
def Enters (s : Segment) (band : Band) : Prop :=
  band.start < s.lower.y ∧ s.upper.y < band.stop ∧ s.upper.y ≠ s.lower.y

instance (s : Segment) (band : Band) : Decidable (s.Enters band) :=
  inferInstanceAs (Decidable (_ ∧ _))

/-- The farthest out position, on a side, of the part of an edge inside a band. -/
def edgeIn (s : Segment) (side : LineSide) (band : Band) : Except Fault Length := do
  let first ← if band.start ≤ s.upper.y then pure s.upper.x else s.crossing band.start
  let last ← if s.lower.y ≤ band.stop then pure s.lower.x else s.crossing band.stop
  return side.outer first last

end Segment

-- ════════════════════════════════════════════════════════════════════════
-- Polygons
-- ════════════════════════════════════════════════════════════════════════

/-- A polygon. -/
structure Polygon where
  vertices : List (Point Length)
  /-- It encloses no area. -/
  empty : Bool
  /-- The least block position of a vertex, if it encloses any area. -/
  blockStart : Length
  /-- The greatest block position of a vertex, if it encloses any area. -/
  blockEnd : Length
deriving DecidableEq

namespace Polygon

/-- Twice the area that three points enclose, with a sign for their orientation. -/
def determinant (p q r : Point Length) : Int :=
  (r.x.units - p.x.units) * (q.y.units - p.y.units) -
    (r.y.units - p.y.units) * (q.x.units - p.x.units)

/-- The first vertex and the first one that differs from it, if any does. -/
def baseline? : List (Point Length) → Option (Point Length × Point Length)
  | [] => none
  | p :: rest => (rest.find? (· ≠ p)).map (p, ·)

/-- Every vertex lies on the line through the first one and the first that differs from it. -/
def Collinear (vertices : List (Point Length)) : Prop :=
  ∀ line ∈ baseline? vertices, ∀ p ∈ vertices, determinant line.1 line.2 p = 0

instance (vertices : List (Point Length)) : Decidable (Collinear vertices) :=
  inferInstanceAs (Decidable (∀ line ∈ baseline? vertices, _))

/-- The polygon of a list of vertices. -/
def ofVertices (vertices : List (Point Length)) : Polygon :=
  if vertices.length < 3 ∨ Collinear vertices then
    { vertices, empty := true, blockStart := .greatest, blockEnd := .least }
  else
    let heights := vertices.map Point.y
    { vertices
      empty := false
      blockStart := heights.foldl min .greatest
      blockEnd := heights.foldl max .least }

/-- The edges, from each vertex to the next and from the last to the first. -/
def edges (p : Polygon) : List Segment :=
  p.vertices.zipWith Segment.between (p.vertices.tail ++ p.vertices.take 1)

/-- The edge of the polygon in a band: the farthest out position of all edges inside the band. -/
def edge (p : Polygon) (side : LineSide) (band : Band) : Except Fault Length := do
  require (p.empty = false) .emptyPolygon
  require (band.start ≤ band.stop) .invertedBand
  let inside := p.edges.filter (·.Enters band)
  inside.foldlM (fun found s => return side.outer found (← s.edgeIn side band)) side.innermost

/-- The polygon moved by an offset. -/
def shift (p : Polygon) (dx dy : Length) : Polygon :=
  { p with
    vertices := p.vertices.map (·.shift dx dy)
    blockStart := p.blockStart + dy
    blockEnd := p.blockEnd + dy }

end Polygon

end FloatLayout
