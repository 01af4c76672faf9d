import FloatLayout.Proofs.PixelRuns
import FloatLayout.Shape.OfStyle

/-!
# Reads of pixels

The opacity of a pixel is stored at an index that is computed in a word for sizes, and an index
outside of the data holds no opacity. A scan with both checks at every read, which goes on to the
next line only when it has the run of the last one, ends as the area of the mask does. So a mask
that is well formed is never read outside of its data, and one that is not is never read at all.

## Main definitions

- `Reading`: a computation that reads pixels, with the pixels that it read.
- `Reading.ReadsAlong`: it reads pixels in the order of a list.
- `AlphaMask.Holds`: a pixel can be read.
- `AlphaMask.readAlpha`: the read of a pixel, with its checks.
- `AlphaMask.scanOrder`: all pixels, row by row or column by column.
- `PixelArea.readMask`, `FloatBox.readImageShape`: the area of a mask and the shape of an image,
  with the pixels that were read for them.
- `PixelArea.readMask_inside`: which pixels are read, and that all of them can be.

## Design notes

The pixels that were read stay known when a computation stops with a fault. The run of a line may
overflow, and then the lines behind it are not read.
-/

namespace FloatLayout

-- ════════════════════════════════════════════════════════════════════════
-- Readings
-- ════════════════════════════════════════════════════════════════════════

/-- The place of a pixel in a mask. -/
structure Pixel where
  column : Nat
  row : Nat
deriving DecidableEq

/-- A computation that reads pixels. -/
structure Reading (α : Type) where
  /-- The pixels that it read, in order. -/
  reads : List Pixel
  outcome : Except Fault α

namespace Reading

variable {α β : Type} {x : Reading α} {f : α → Reading β} {pixels pixels' : List Pixel}

/-- A computation that reads no pixels. -/
def ofExcept (outcome : Except Fault α) : Reading α := ⟨[], outcome⟩

/-- After a fault, nothing more is read. -/
instance : Monad Reading where
  pure a := ofExcept (.ok a)
  bind x f :=
    match x.outcome with
    | .ok a => ⟨x.reads ++ (f a).reads, (f a).outcome⟩
    | .error fault => ⟨x.reads, .error fault⟩

@[simp] theorem outcome_pure (a : α) : (pure a : Reading α).outcome = .ok a := rfl

theorem ofExcept_ok_bind (a : α) (f : α → Reading β) : ofExcept (.ok a) >>= f = f a := rfl

@[simp] theorem outcome_bind (x : Reading α) (f : α → Reading β) :
    (x >>= f).outcome = x.outcome >>= fun a => (f a).outcome := by
  rcases x with ⟨reads, fault | a⟩
  · rfl
  · rfl

/-- A computation reads pixels in the order of a list, and all of them unless it stops with a
    fault. -/
structure ReadsAlong (x : Reading α) (pixels : List Pixel) : Prop where
  inOrder : x.reads <+: pixels
  complete : ∀ a, x.outcome = .ok a → x.reads = pixels

theorem ReadsAlong.ofExcept (outcome : Except Fault α) : (ofExcept outcome).ReadsAlong [] :=
  ⟨List.nil_prefix, fun _ _ => rfl⟩

theorem ReadsAlong.pure (a : α) : (pure a : Reading α).ReadsAlong [] := .ofExcept (.ok a)

theorem ReadsAlong.bind (hx : x.ReadsAlong pixels)
    (hf : ∀ a, x.outcome = .ok a → (f a).ReadsAlong pixels') :
    (x >>= f).ReadsAlong (pixels ++ pixels') := by
  rcases x with ⟨reads, fault | a⟩
  · exact ⟨hx.inOrder.trans (List.prefix_append _ _), nofun⟩
  · obtain rfl : reads = pixels := hx.complete a rfl
    have hrest := hf a rfl
    exact ⟨(List.prefix_append_right_inj _).2 hrest.inOrder,
      fun b hb => congrArg (reads ++ ·) (hrest.complete b hb)⟩

/-- What comes last may read nothing. -/
theorem ReadsAlong.bind_nil (hx : x.ReadsAlong pixels) (hf : ∀ a, (f a).ReadsAlong []) :
    (x >>= f).ReadsAlong pixels := by
  have hbind := hx.bind fun a _ => hf a
  rwa [List.append_nil] at hbind

end Reading

/-- A result in an unsigned word of 64 bits, as sizes are. -/
def Word.checkedSize (operation : WordOperation) (n : Nat) : Except Fault Nat :=
  if n < UInt64.size then .ok n else .error (.overflow operation)

theorem Word.checkedSize_eq_ok_iff {operation : WordOperation} {n k : Nat} :
    checkedSize operation n = .ok k ↔ n < UInt64.size ∧ n = k := by
  unfold checkedSize
  split
  · rw [and_iff_right ‹_›, Except.ok.injEq]
  · exact ⟨nofun, fun h => absurd h.1 ‹_›⟩

-- ════════════════════════════════════════════════════════════════════════
-- Pixels of a mask
-- ════════════════════════════════════════════════════════════════════════

/-- A pixel of a line, which is a column if lines are vertical and else a row. -/
def Pixel.ofLine (vertical : Bool) (line pixel : Nat) : Pixel :=
  if vertical then ⟨line, pixel⟩ else ⟨pixel, line⟩

namespace AlphaMask

variable {mask : AlphaMask} {vertical : Bool} {limit line : Nat} {p : Pixel} {pixels : List Nat}

/-- The index of a pixel is computed without an overflow, and lies within the data. -/
structure Holds (mask : AlphaMask) (p : Pixel) : Prop where
  start : p.row * mask.stride < UInt64.size
  index : mask.offset p.column p.row < UInt64.size
  inside : mask.offset p.column p.row < mask.data.size

/-- All pixels of a mask, column by column if lines are vertical and else row by row. -/
def scanOrder (mask : AlphaMask) (vertical : Bool) : List Pixel :=
  let columns := List.range mask.size.width.toNat
  let rows := List.range mask.size.height.toNat
  if vertical then columns.flatMap fun column => rows.map fun row => ⟨column, row⟩
  else rows.flatMap fun row => columns.map fun column => ⟨column, row⟩

theorem mem_scanOrder_iff :
    p ∈ mask.scanOrder vertical ↔
      p.column < mask.size.width.toNat ∧ p.row < mask.size.height.toNat := by
  rcases p with ⟨column, row⟩
  cases vertical <;>
    simp only [scanOrder, List.mem_flatMap, List.mem_map, List.mem_range, Pixel.mk.injEq,
      Bool.false_eq_true, if_true, if_false] <;>
    grind

/-- All pixels of a well-formed mask can be read. -/
theorem holds_of_wellFormed (h : mask.layout.WellFormed) (hp : p ∈ mask.scanOrder vertical) :
    mask.Holds p := by
  obtain ⟨-, -, hword, hstride, hdata⟩ := h
  obtain ⟨hcolumn, hrow⟩ := mem_scanOrder_iff.1 hp
  change mask.stride * mask.size.height.toNat < _ at hword
  change mask.size.width ≤ mask.stride at hstride
  change mask.stride * mask.size.height.toNat ≤ mask.data.size at hdata
  -- The row of the pixel ends before the data do.
  have hend : (p.row + 1) * mask.stride ≤ mask.stride * mask.size.height.toNat := by
    rw [Nat.mul_comm mask.stride]
    exact Nat.mul_le_mul_right _ hrow
  rw [Nat.add_mul, Nat.one_mul] at hend
  exact ⟨by omega, by rw [offset]; omega, by rw [offset]; omega⟩

/-- The pixels of a line. -/
def linePixels (mask : AlphaMask) (vertical : Bool) (line : Nat) : List Pixel :=
  (List.range (mask.lineLength vertical)).map (.ofLine vertical line)

theorem scanOrder_eq_flatMap (mask : AlphaMask) (vertical : Bool) :
    mask.scanOrder vertical =
      (List.range (mask.lineCount vertical)).flatMap (mask.linePixels vertical) := by
  -- Lines without pixels are not counted.
  by_cases hlength : mask.lineLength vertical = 0
  · have hnone : mask.scanOrder vertical = [] := by
      refine List.eq_nil_iff_forall_not_mem.2 fun p hp => ?_
      obtain ⟨hcolumn, hrow⟩ := mem_scanOrder_iff.1 hp
      cases vertical with
      | false => exact Nat.ne_of_gt (Nat.zero_lt_of_lt hcolumn) hlength
      | true => exact Nat.ne_of_gt (Nat.zero_lt_of_lt hrow) hlength
    rw [hnone, lineCount, if_pos hlength]
    rfl
  · rw [lineCount, if_neg hlength]
    cases vertical <;> rfl

-- ════════════════════════════════════════════════════════════════════════
-- Reads of lines
-- ════════════════════════════════════════════════════════════════════════

/-- The read of a pixel. -/
def readAlpha (mask : AlphaMask) (p : Pixel) : Reading UInt8 where
  reads := [p]
  outcome := do
    let start ← Word.checkedSize .multiply (p.row * mask.stride)
    let index ← Word.checkedSize .add (p.column + start)
    match mask.data[index]? with
    | some alpha => return alpha
    | none => .error (.noSuchIndex mask.data.size index)

theorem readAlpha_readsAlong (mask : AlphaMask) (p : Pixel) :
    (mask.readAlpha p).ReadsAlong [p] := ⟨List.prefix_rfl, fun _ _ => rfl⟩

/-- The checks of a read are those that a pixel which can be read passes. -/
theorem outcome_readAlpha_eq_ok_iff {alpha : UInt8} :
    (mask.readAlpha p).outcome = .ok alpha ↔
      mask.Holds p ∧ mask.data[mask.offset p.column p.row]? = some alpha := by
  simp only [readAlpha, bind_eq_ok_iff, Word.checkedSize_eq_ok_iff]
  constructor
  · rintro ⟨_, ⟨hstart, rfl⟩, _, ⟨hindex, rfl⟩, hread⟩
    split at hread
    · next found hfound =>
      cases hread
      exact ⟨⟨hstart, hindex, (Array.getElem?_eq_some_iff.1 hfound).1⟩, hfound⟩
    · cases hread
  · rintro ⟨h, hfound⟩
    refine ⟨_, ⟨h.start, rfl⟩, _, ⟨h.index, rfl⟩, ?_⟩
    rw [offset] at hfound
    rw [hfound]
    rfl

theorem Holds.outcome_readAlpha {pixel : Nat} (h : mask.Holds (.ofLine vertical line pixel)) :
    (mask.readAlpha (.ofLine vertical line pixel)).outcome =
      .ok (mask.lineAlpha vertical line pixel) := by
  refine outcome_readAlpha_eq_ok_iff.2 ⟨h, ?_⟩
  have hoffset : mask.offset (Pixel.ofLine vertical line pixel).column
      (Pixel.ofLine vertical line pixel).row = mask.lineOffset vertical line pixel := by
    cases vertical <;> rfl
  have hinside := h.inside
  rw [hoffset] at hinside ⊢
  rw [lineAlpha, Array.getD_eq_getD_getElem?, Array.getElem?_eq_getElem hinside, Option.getD_some]

/-- The visible ones of some pixels of a line, which are read one after the other. -/
def readVisible (mask : AlphaMask) (vertical : Bool) (limit line : Nat) :
    List Nat → Reading (List Nat)
  | [] => return []
  | pixel :: rest => do
    let alpha ← mask.readAlpha (.ofLine vertical line pixel)
    let visible ← mask.readVisible vertical limit line rest
    return if limit < alpha.toNat then pixel :: visible else visible

theorem readVisible_readsAlong (mask : AlphaMask) (vertical : Bool) (limit line : Nat)
    (pixels : List Nat) :
    (mask.readVisible vertical limit line pixels).ReadsAlong
      (pixels.map (.ofLine vertical line)) := by
  induction pixels with
  | nil => exact .pure []
  | cons pixel rest ih =>
    exact (mask.readAlpha_readsAlong _).bind fun alpha _ => ih.bind_nil fun visible => .pure _

theorem outcome_readVisible (h : ∀ pixel ∈ pixels, mask.Holds (.ofLine vertical line pixel)) :
    (mask.readVisible vertical limit line pixels).outcome =
      .ok (pixels.filter fun pixel => limit < (mask.lineAlpha vertical line pixel).toNat) := by
  induction pixels with
  | nil => rfl
  | cons pixel rest ih =>
    obtain ⟨hpixel, hrest⟩ := List.forall_mem_cons.1 h
    rw [readVisible, Reading.outcome_bind]
    refine bind_eq_ok_iff.2 ⟨_, hpixel.outcome_readAlpha, ?_⟩
    rw [Reading.outcome_bind]
    refine bind_eq_ok_iff.2 ⟨_, ih hrest, ?_⟩
    simp only [List.filter_cons, decide_eq_true_iff, Reading.outcome_pure]

/-- The visible part of a line, of which all pixels are read. -/
def readLine (mask : AlphaMask) (vertical : Bool) (limit line : Nat) :
    Reading (Option VisibleLine) := do
  let visible ← mask.readVisible vertical limit line (List.range (mask.lineLength vertical))
  return match visible.head?, visible.getLast? with
    | some first, some last => some ⟨line, first, last⟩
    | _, _ => none

theorem readLine_readsAlong (mask : AlphaMask) (vertical : Bool) (limit line : Nat) :
    (mask.readLine vertical limit line).ReadsAlong (mask.linePixels vertical line) :=
  (mask.readVisible_readsAlong vertical limit line _).bind_nil fun _ => .pure _

theorem outcome_readLine (h : ∀ p ∈ mask.linePixels vertical line, mask.Holds p) :
    (mask.readLine vertical limit line).outcome = .ok (mask.visibleLine? vertical limit line) := by
  rw [readLine, Reading.outcome_bind, outcome_readVisible (List.forall_mem_map.1 h)]
  rfl

end AlphaMask

-- ════════════════════════════════════════════════════════════════════════
-- Reads of masks
-- ════════════════════════════════════════════════════════════════════════

namespace PixelArea

variable {mask : AlphaMask} {mode : WritingMode} {unit : Int} {limit : Nat} {origin : Point Length}
  {threshold : Single} {content : Rect Length} {container : Size Length} {lines : List Nat}

/-- The runs of some lines. A line is read when the run of the line before it is known. -/
def readRuns (mask : AlphaMask) (mode : WritingMode) (unit : Int) (limit : Nat)
    (origin : Point Length) : List Nat → Reading (List PixelRun)
  | [] => return []
  | line :: rest => do
    match ← mask.readLine mode.vertical limit line with
    | none => readRuns mask mode unit limit origin rest
    | some v =>
      let run ← .ofExcept (runOf mode unit origin v)
      let runs ← readRuns mask mode unit limit origin rest
      return run :: runs

theorem readRuns_readsAlong (mask : AlphaMask) (mode : WritingMode) (unit : Int) (limit : Nat)
    (origin : Point Length) (lines : List Nat) :
    (readRuns mask mode unit limit origin lines).ReadsAlong
      (lines.flatMap (mask.linePixels mode.vertical)) := by
  induction lines with
  | nil => exact .pure []
  | cons line rest ih =>
    refine (mask.readLine_readsAlong mode.vertical limit line).bind fun found _ => ?_
    cases found with
    | none => exact ih
    | some v =>
      exact (Reading.ReadsAlong.ofExcept (runOf mode unit origin v)).bind fun run _ =>
        ih.bind_nil fun runs => .pure _

theorem outcome_readRuns (h : ∀ p ∈ lines.flatMap (mask.linePixels mode.vertical), mask.Holds p) :
    (readRuns mask mode unit limit origin lines).outcome =
      (lines.filterMap (mask.visibleLine? mode.vertical limit)).mapM (runOf mode unit origin) := by
  induction lines with
  | nil => rfl
  | cons line rest ih =>
    rw [List.flatMap_cons, List.forall_mem_append] at h
    rw [readRuns, Reading.outcome_bind, AlphaMask.outcome_readLine h.1]
    cases hline : mask.visibleLine? mode.vertical limit line with
    | none =>
      rw [List.filterMap_cons_none hline, ← ih h.2]
      rfl
    | some v =>
      rw [List.filterMap_cons_some hline, List.mapM_cons, ← ih h.2]
      refine (Reading.outcome_bind (.ofExcept (runOf mode unit origin v)) _).trans ?_
      exact bind_congr fun run => Reading.outcome_bind _ _

/-- The area of a mask over a content box, found by reading the mask. -/
def readMask (mask : AlphaMask) (unit : Int) (threshold : Single) (content : Rect Length)
    (mode : WritingMode) (container : Size Length) : Reading PixelArea :=
  match alphaLimit? threshold with
  | none => .ofExcept (.error .thresholdOutOfRange)
  | some limit =>
    if mask.layout.WellFormed then do
      let origin := LineRelative.point mode content.origin container
      let lines := List.range (mask.lineCount mode.vertical)
      let runs ← readRuns mask mode unit limit origin lines
      .ofExcept (ofRuns (if mode.isVerticalRl then runs.reverse else runs))
    else return empty

theorem outcome_readMask (mask : AlphaMask) (unit : Int) (threshold : Single)
    (content : Rect Length) (mode : WritingMode) (container : Size Length) :
    (readMask mask unit threshold content mode container).outcome =
      ofMask mask unit threshold content mode container := by
  unfold readMask ofMask
  cases alphaLimit? threshold with
  | none => rfl
  | some limit =>
    by_cases hformed : mask.layout.WellFormed
    · have hholds : ∀ p ∈ (List.range (mask.lineCount mode.vertical)).flatMap
          (mask.linePixels mode.vertical), mask.Holds p := by
        rw [← AlphaMask.scanOrder_eq_flatMap]
        exact fun p => AlphaMask.holds_of_wellFormed hformed
      simp only [if_pos hformed, Reading.outcome_bind, outcome_readRuns hholds]
      rfl
    · simp only [if_neg hformed]
      rfl

theorem readMask_readsAlong (h : mask.layout.WellFormed)
    (hlimit : alphaLimit? threshold = some limit) :
    (readMask mask unit threshold content mode container).ReadsAlong
      (mask.scanOrder mode.vertical) := by
  rw [readMask, hlimit, AlphaMask.scanOrder_eq_flatMap]
  dsimp only
  rw [if_pos h]
  exact (readRuns_readsAlong mask mode unit limit _ _).bind_nil fun runs => .ofExcept _

theorem readMask_of_not_wellFormed (h : ¬mask.layout.WellFormed)
    (hlimit : alphaLimit? threshold = some limit) :
    readMask mask unit threshold content mode container = pure empty := by
  rw [readMask, hlimit]
  exact if_neg h

end PixelArea

/-- The shape of a rendered image, found by reading its mask. -/
def FloatBox.readImageShape (box : FloatBox) (threshold : Single) (mode : WritingMode)
    (container : Size Length) : Reading (Except ShapeFailure Shape) := do
  let content ← .ofExcept box.contentRect
  match box.render (box.imageSize content) with
  | none => return .error .imageNotReady
  | some mask =>
    if mask.layout.WellFormed then
      let area ← PixelArea.readMask mask box.pixelUnits threshold content mode container
      return .ok (.pixels area)
    else return .error .malformedMask

theorem FloatBox.outcome_readImageShape (box : FloatBox) (threshold : Single) (mode : WritingMode)
    (container : Size Length) :
    (box.readImageShape threshold mode container).outcome =
      box.imageShape threshold mode container := by
  refine (Reading.outcome_bind (.ofExcept box.contentRect) _).trans (bind_congr fun content => ?_)
  cases box.render (box.imageSize content) with
  | none => rfl
  | some mask =>
    dsimp only
    split
    · rw [Reading.outcome_bind, PixelArea.outcome_readMask]
      rfl
    · rfl

/-- The shape image of a box is ready, and it is a mask. -/
def FloatBox.Renders (box : FloatBox) (mask : AlphaMask) : Prop :=
  ∃ content, box.contentRect = .ok content ∧ box.render (box.imageSize content) = some mask

theorem FloatBox.Renders.readImageShape_of_not_wellFormed {box : FloatBox} {mask : AlphaMask}
    (h : box.Renders mask) (hformed : ¬mask.layout.WellFormed) (threshold : Single)
    (mode : WritingMode) (container : Size Length) :
    box.readImageShape threshold mode container = pure (.error .malformedMask) := by
  obtain ⟨content, hcontent, hmask⟩ := h
  rw [readImageShape, hcontent, Reading.ofExcept_ok_bind, hmask]
  exact if_neg hformed

/-- The shape of an image reads what the area of its mask reads. -/
theorem FloatBox.Renders.readImageShape_readsAlong {box : FloatBox} {mask : AlphaMask}
    (h : box.Renders mask) (hformed : mask.layout.WellFormed) {threshold : Single} {limit : Nat}
    (hlimit : PixelArea.alphaLimit? threshold = some limit) (mode : WritingMode)
    (container : Size Length) :
    (box.readImageShape threshold mode container).ReadsAlong (mask.scanOrder mode.vertical) := by
  obtain ⟨content, hcontent, hmask⟩ := h
  rw [readImageShape, hcontent, Reading.ofExcept_ok_bind, hmask]
  dsimp only
  rw [if_pos hformed]
  exact (PixelArea.readMask_readsAlong hformed hlimit).bind_nil fun area => .pure _

namespace PixelArea

/-- The area of a mask, and the shape of an image that renders to it, are found without reading a
    pixel of a mask that is not well formed. Of one that is, pixels are read row by row, or column
    by column if lines are vertical, each at an index that is computed without an overflow and lies
    within the data. -/
theorem readMask_inside (mask : AlphaMask) (unit : Int) {threshold : Rat} (hzero : 0 ≤ threshold)
    (hone : threshold ≤ 1) (content : Rect Length) (mode : WritingMode) (container : Size Length) :
    let scan := readMask mask unit (.finite threshold) content mode container
    let shape (box : FloatBox) := box.readImageShape (.finite threshold) mode container
    scan.outcome = ofMask mask unit (.finite threshold) content mode container ∧
      (∀ box, (shape box).outcome = box.imageShape (.finite threshold) mode container) ∧
      (¬mask.layout.WellFormed →
        (scan.reads = [] ∧ scan.outcome = .ok empty) ∧
          ∀ box : FloatBox, box.Renders mask →
            (shape box).reads = [] ∧ (shape box).outcome = .ok (.error .malformedMask)) ∧
      (mask.layout.WellFormed →
        scan.ReadsAlong (mask.scanOrder mode.vertical) ∧
          (∀ box : FloatBox, box.Renders mask →
            (shape box).ReadsAlong (mask.scanOrder mode.vertical)) ∧
          ∀ p ∈ mask.scanOrder mode.vertical, mask.Holds p) := by
  intro scan shape
  have hlimit : alphaLimit? (.finite threshold) =
      some (min (Binary.round Binary.single (threshold * 255)).floor.toNat 255) :=
    if_pos ⟨hzero, hone⟩
  refine ⟨outcome_readMask mask unit _ content mode container,
    fun box => box.outcome_readImageShape _ mode container, fun hformed => ⟨?_, fun box hbox => ?_⟩,
    fun hformed => ⟨readMask_readsAlong hformed hlimit,
      fun box hbox => hbox.readImageShape_readsAlong hformed hlimit mode container,
      fun p => AlphaMask.holds_of_wellFormed hformed⟩⟩
  · have hscan : scan = pure empty := readMask_of_not_wellFormed hformed hlimit
    rw [hscan]
    exact ⟨rfl, rfl⟩
  · have hshape : shape box = pure (.error .malformedMask) :=
      hbox.readImageShape_of_not_wellFormed hformed _ mode container
    rw [hshape]
    exact ⟨rfl, rfl⟩

/-- Two columns of two pixels, in rows of three bytes. -/
def padded : AlphaMask := ⟨#[0, 255, 7, 255, 0, 7], 3, ⟨2, 2⟩⟩

/-- A mask whose rows take no bytes if these are counted in a word that wraps. -/
def wrapped : AlphaMask := ⟨#[], 9223372036854775808, ⟨1, 2⟩⟩

/-- A box whose shape image renders to a mask. -/
def rendered (mask : AlphaMask) : FloatBox :=
  { FloatBox.plain 1 .left with
    rect := ⟨0, 0, 120, 120⟩
    shapeOutside := .image (.finite (1 / 2))
    render := fun _ => some mask }

/-- The columns of `padded` are read one after the other. The rows of `wrapped` do not fit a word,
    so it is not read. -/
theorem padded_readMask_inside :
    let mode := WritingMode.ofProperties .verticalRl .ltr
    let scan mask := readMask mask 60 (.finite (1 / 2)) ⟨0, 0, 120, 120⟩ mode ⟨300, 400⟩
    (0 : Rat) ≤ 1 / 2 ∧ (1 / 2 : Rat) ≤ 1 ∧
      (padded.layout.WellFormed ∧
        (scan padded).outcome = .ok ⟨#[⟨0, 180, 60, 60⟩, ⟨60, 240, 60, 60⟩], 180, 300⟩ ∧
        (scan padded).reads = [⟨0, 0⟩, ⟨0, 1⟩, ⟨1, 0⟩, ⟨1, 1⟩] ∧
        ∀ p ∈ (scan padded).reads, padded.Holds p) ∧
      ¬wrapped.layout.WellFormed ∧ (scan wrapped).reads = [] ∧
        (rendered wrapped).imageShape (.finite (1 / 2)) mode ⟨300, 400⟩ =
          .ok (.error .malformedMask) := by
  intro mode scan
  have hzero : (0 : Rat) ≤ 1 / 2 := by norm_num
  have hone : (1 / 2 : Rat) ≤ 1 := by norm_num
  have hpadded : padded.layout.WellFormed := by decide
  have hwrapped : ¬wrapped.layout.WellFormed := by decide
  obtain ⟨houtcome, -, -, hformed⟩ :=
    readMask_inside padded 60 hzero hone ⟨0, 0, 120, 120⟩ mode ⟨300, 400⟩
  obtain ⟨-, himage, hmalformed, -⟩ :=
    readMask_inside wrapped 60 hzero hone ⟨0, 0, 120, 120⟩ mode ⟨300, 400⟩
  obtain ⟨hreads, -, hholds⟩ := hformed hpadded
  obtain ⟨hnone, hshape⟩ := hmalformed hwrapped
  have harea : ofMask padded 60 (.finite (1 / 2)) ⟨0, 0, 120, 120⟩ mode ⟨300, 400⟩ =
      .ok ⟨#[⟨0, 180, 60, 60⟩, ⟨60, 240, 60, 60⟩], 180, 300⟩ := by decide +kernel
  have horder : (scan padded).reads = padded.scanOrder true :=
    hreads.complete _ (houtcome.trans harea)
  refine ⟨hzero, hone, ⟨hpadded, houtcome.trans harea, horder, ?_⟩, hwrapped, hnone.1, ?_⟩
  · rw [horder]
    exact hholds
  · rw [← himage]
    exact (hshape _ ⟨_, rfl, rfl⟩).2

end PixelArea

end FloatLayout
