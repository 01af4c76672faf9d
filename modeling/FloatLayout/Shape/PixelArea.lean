import FloatLayout.AlphaMask
import FloatLayout.Binary.Single
import FloatLayout.LineRelative
import FloatLayout.LineSide
import FloatLayout.Word

/-!
# Pixel areas

The float area of a shape image, in line-relative space. Each line of pixels along the inline axis
gives one run, from its first to its last pixel above the alpha threshold.

## Main definitions

- `PixelRun`: a run of pixels of one line. `PixelRun.right` and `PixelRun.bottom` are its far edges.
- `AlphaMask.visibleLines`: the lines of a mask that have visible pixels.
- `PixelArea.ofMask`: the area of a mask laid out over a content box.
- `PixelArea.edge`: the edge of the area in a band.
- `PixelArea.firstReaching`: the search for the first run that reaches into a band.

## Design notes

The extent of a run is a product of a pixel count and the size of a pixel, in a word of 32 bits. It
may leave the range of lengths, so it is a number and not a length.
-/

namespace FloatLayout

-- ════════════════════════════════════════════════════════════════════════
-- Runs of pixels
-- ════════════════════════════════════════════════════════════════════════

/-- A run of neighbouring pixels of one line. -/
structure PixelRun where
  x : Length
  y : Length
  width : Int
  height : Int
deriving DecidableEq

namespace PixelRun

/-- The line-right edge. -/
def right (r : PixelRun) : Except Fault Length :=
  return .clamp (← Word.checked32 .add (r.x.units + r.width))

/-- The block-end edge. -/
def bottom (r : PixelRun) : Except Fault Length :=
  return .clamp (← Word.checked32 .add (r.y.units + r.height))

/-- The block position `target` lies within the run, its block end excluded. -/
def holds (r : PixelRun) (target : Length) : Except Fault Bool :=
  if r.y ≤ target then return decide (target < (← r.bottom)) else return false

/-- The edge on a line side. -/
def lineEdge (r : PixelRun) : LineSide → Except Fault Length
  | .left => return r.x
  | .right => r.right

/-- The run moved by an offset. -/
def shift (r : PixelRun) (dx dy : Length) : PixelRun := { r with x := r.x + dx, y := r.y + dy }

end PixelRun

-- ════════════════════════════════════════════════════════════════════════
-- Visible pixels
-- ════════════════════════════════════════════════════════════════════════

/-- The visible part of a line of pixels. -/
structure VisibleLine where
  /-- The number of the line, counted along the block axis. -/
  line : Nat
  /-- The first visible pixel. -/
  first : Nat
  /-- The last visible pixel. -/
  last : Nat
deriving DecidableEq

namespace AlphaMask

/-- The number of pixels of a line. Horizontal lines are rows and vertical ones columns. -/
def lineLength (m : AlphaMask) (vertical : Bool) : Nat :=
  (if vertical then m.size.height else m.size.width).toNat

/-- The number of lines of pixels along the inline axis, of which there are none without pixels. -/
def lineCount (m : AlphaMask) (vertical : Bool) : Nat :=
  if m.lineLength vertical = 0 then 0
  else (if vertical then m.size.width else m.size.height).toNat

/-- Where the opacity of a pixel of a line is stored. -/
def lineOffset (m : AlphaMask) (vertical : Bool) (line pixel : Nat) : Nat :=
  if vertical then m.offset line pixel else m.offset pixel line

/-- The opacity of a pixel of a line. -/
def lineAlpha (m : AlphaMask) (vertical : Bool) (line pixel : Nat) : UInt8 :=
  m.data.getD (m.lineOffset vertical line pixel) 0

/-- The pixels of a line that are more opaque than `limit`. -/
def visiblePixels (m : AlphaMask) (vertical : Bool) (limit : Nat) (line : Nat) : List Nat :=
  (List.range (m.lineLength vertical)).filter fun pixel =>
    limit < (m.lineAlpha vertical line pixel).toNat

/-- The visible part of a line, if any pixel of it is visible. -/
def visibleLine? (m : AlphaMask) (vertical : Bool) (limit : Nat) (line : Nat) :
    Option VisibleLine :=
  let pixels := m.visiblePixels vertical limit line
  match pixels.head?, pixels.getLast? with
  | some first, some last => some ⟨line, first, last⟩
  | _, _ => none

/-- The visible parts of all lines, from the top or from the left. -/
def visibleLines (m : AlphaMask) (vertical : Bool) (limit : Nat) : List VisibleLine :=
  (List.range (m.lineCount vertical)).filterMap (m.visibleLine? vertical limit)

end AlphaMask

-- ════════════════════════════════════════════════════════════════════════
-- Areas
-- ════════════════════════════════════════════════════════════════════════

/-- The area of the visible pixels of an image. -/
structure PixelArea where
  /-- The runs of all lines, from block-start on. -/
  runs : Array PixelRun
  /-- The block start of the first run. -/
  blockStart : Length
  /-- The block end of the last run. -/
  blockEnd : Length
deriving DecidableEq

namespace PixelArea

/-- The area without pixels. -/
def empty : PixelArea := ⟨#[], .greatest, .least⟩

/-- An area without pixels. -/
def IsEmpty (a : PixelArea) : Prop := a.runs = #[]

instance (a : PixelArea) : Decidable a.IsEmpty := inferInstanceAs (Decidable (_ = _))

/-- The greatest opacity that does not count at a threshold between zero and one, in 255ths, or
    nothing for any other threshold. -/
def alphaLimit? : Single → Option Nat
  | .finite threshold =>
    if 0 ≤ threshold ∧ threshold ≤ 1 then
      some (min (Binary.round Binary.single (threshold * 255)).floor.toNat 255)
    else none
  | .infinite _ | .notANumber => none

/-- The offset of a visible line from the origin of its image, along the inline and the block axis,
    when a pixel is `unit` wide. Lines of a mode that stacks them from right to left run away from
    the block-start side, and pixels of a sideways line that runs upwards away from line-left. -/
def offsetOf (mode : WritingMode) (unit : Int) (v : VisibleLine) : Except Fault (Int × Int) := do
  if mode.isVerticalRl then
    return (← Word.checked32 .multiply (v.first * unit),
      ← Word.checked32 .multiply (-(v.line + 1) * unit))
  else if mode.verticalLr ∧ mode.sideways then
    return (← Word.checked32 .multiply (-(v.last + 1) * unit),
      ← Word.checked32 .multiply (v.line * unit))
  else
    return (← Word.checked32 .multiply (v.first * unit),
      ← Word.checked32 .multiply (v.line * unit))

/-- The run of a visible line, in an image with its first pixel at `origin`. -/
def runOf (mode : WritingMode) (unit : Int) (origin : Point Length) (v : VisibleLine) :
    Except Fault PixelRun := do
  let width ← Word.checked32 .multiply ((v.last + 1 - v.first) * unit)
  let (dx, dy) ← offsetOf mode unit v
  let x ← Word.checked32 .add (origin.x.units + dx)
  let y ← Word.checked32 .add (origin.y.units + dy)
  return ⟨.clamp x, .clamp y, width, unit⟩

/-- The area of runs in the order of their block start. -/
def ofRuns (runs : List PixelRun) : Except Fault PixelArea :=
  match runs.head?, runs.getLast? with
  | some first, some last => return ⟨runs.toArray, first.y, ← last.bottom⟩
  | _, _ => return empty

/-- The area of a mask over a content box. Pixels are `unit` wide, and count from the threshold on.
    A mask that is not well formed has no area. -/
def ofMask (mask : AlphaMask) (unit : Int) (threshold : Single) (content : Rect Length)
    (mode : WritingMode) (container : Size Length) : Except Fault PixelArea :=
  match alphaLimit? threshold with
  | none => .error .thresholdOutOfRange
  | some limit =>
    if mask.layout.WellFormed then do
      let origin := LineRelative.point mode content.origin container
      let runs ← (mask.visibleLines mode.vertical limit).mapM (runOf mode unit origin)
      ofRuns (if mode.isVerticalRl then runs.reverse else runs)
    else return empty

-- ════════════════════════════════════════════════════════════════════════
-- Edges
-- ════════════════════════════════════════════════════════════════════════

/-- The index, between `low` and `high`, of a run that holds `target`, or else of the first run
    below it, found by halving. -/
def firstReaching (runs : Array PixelRun) (target : Length) (low high : Nat) :
    Except Fault Nat :=
  if low < high then
    let middle := low + (high - low) / 2
    match runs[middle]? with
    | none => return high
    | some run => do
      if ← run.holds target then return middle
      else if run.y < target then firstReaching runs target (middle + 1) high
      else firstReaching runs target low middle
  else return high
termination_by high - low

/-- The edge of the area in a band: the farthest out position of the runs in it. -/
def edge (a : PixelArea) (side : LineSide) (band : Band) : Except Fault Length := do
  require (band.start ≤ band.stop) .invertedBand
  let first ← firstReaching a.runs band.start 0 a.runs.size
  let inside := (a.runs.toList.drop first).takeWhile (·.y ≤ band.stop)
  inside.foldlM (fun found run => return side.outer found (← run.lineEdge side)) side.innermost

/-- The area moved by an offset. -/
def shift (a : PixelArea) (dx dy : Length) : PixelArea :=
  ⟨a.runs.map (·.shift dx dy), a.blockStart + dy, a.blockEnd + dy⟩

end PixelArea

end FloatLayout
