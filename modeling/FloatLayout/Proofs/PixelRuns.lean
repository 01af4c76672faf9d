import FloatLayout.Proofs.PixelEdge
import FloatLayout.Proofs.Placement

/-!
# Pixel runs

The run of a line of pixels starts at an offset from the corner of its image, which depends on where
lines go and how they are stacked. It is where the pixels themselves are on the page, brought into
line-relative space, in every mode.

## Main definitions

- `AlphaMask.Visible`, `AlphaMask.Spans`: a visible pixel, and a line from its first to its last.
- `AlphaMask.stackedLines`: the visible lines in the order of their block start.
- `VisibleLine.covering`: what a line covers on the page.
- `VisibleLine.offset`, `VisibleLine.run`: the run of a line, without the checks on the way to it.
- `VisibleLine.rect_covering`: the offset of a line leads to where the line is.
- `PixelArea.ofMask_eq_ok_iff`: when a mask has an area, and which one.
- `PixelArea.eq_empty_or_ofRuns_of_ofMask`: where an area of a mask comes from.
- `PixelArea.ofMask_covers`: the runs of an area are its visible lines.

## Design notes

Places on the page are whole numbers here. A pixel may lie outside of the range of lengths on the
page although its run, which is counted from an edge of the container, lies within it.
-/

namespace FloatLayout

variable {mode : WritingMode} {unit : Int} {origin : Point Length}

theorem Length.fits (a : Length) : Word.bits32.Fits a.units := by
  have := a.lower
  have := a.upper
  simp only [Word.Fits, Word.limit]
  omega

-- ════════════════════════════════════════════════════════════════════════
-- Visible pixels
-- ════════════════════════════════════════════════════════════════════════

/-- A mode stacks a line before another one. -/
def VisibleLine.Before (mode : WritingMode) (v w : VisibleLine) : Prop :=
  if mode.isVerticalRl then w.line < v.line else v.line < w.line

theorem VisibleLine.Before.line_ne {v w : VisibleLine} (h : Before mode v w) : v.line ≠ w.line := by
  unfold Before at h
  split at h
  · exact Nat.ne_of_gt h
  · exact Nat.ne_of_lt h

namespace AlphaMask

variable {mask : AlphaMask} {vertical : Bool} {limit line pixel : Nat} {v : VisibleLine}

/-- A pixel of the mask is more opaque than `limit`. -/
def Visible (mask : AlphaMask) (limit column row : Nat) : Prop :=
  column < mask.size.width.toNat ∧ row < mask.size.height.toNat ∧
    limit < (mask.data.getD (mask.offset column row) 0).toNat

/-- A pixel of a line, which is a column if lines are vertical and else a row, is visible. -/
def VisibleIn (mask : AlphaMask) (vertical : Bool) (limit line pixel : Nat) : Prop :=
  if vertical then mask.Visible limit line pixel else mask.Visible limit pixel line

/-- A visible line goes from the first to the last visible pixel that it has. -/
structure Spans (mask : AlphaMask) (vertical : Bool) (limit : Nat) (v : VisibleLine) : Prop where
  first : mask.VisibleIn vertical limit v.line v.first
  last : mask.VisibleIn vertical limit v.line v.last
  between : ∀ pixel, mask.VisibleIn vertical limit v.line pixel → v.first ≤ pixel ∧ pixel ≤ v.last

theorem visibleIn_iff :
    mask.VisibleIn vertical limit line pixel ↔
      line < mask.lineCount vertical ∧ pixel ∈ mask.visiblePixels vertical limit line := by
  rw [visiblePixels, List.mem_filter, List.mem_range, decide_eq_true_iff, lineCount]
  cases vertical <;> simp only [VisibleIn, Visible, lineLength, lineAlpha, lineOffset] <;> grind

theorem visiblePixels_pairwise (mask : AlphaMask) (vertical : Bool) (limit line : Nat) :
    (mask.visiblePixels vertical limit line).Pairwise (· < ·) :=
  List.pairwise_lt_range.filter _

theorem visibleLine?_eq_some_iff :
    mask.visibleLine? vertical limit line = some v ↔
      v.line = line ∧ (mask.visiblePixels vertical limit line).head? = some v.first ∧
        (mask.visiblePixels vertical limit line).getLast? = some v.last := by
  rcases v with ⟨line', first', last'⟩
  unfold visibleLine?
  dsimp only
  split
  · next first last hfirst hlast =>
    simp only [hfirst, hlast, Option.some.injEq, VisibleLine.mk.injEq, eq_comm]
  · next hnone =>
    exact ⟨nofun, fun h => absurd h.2.2 (hnone _ _ h.2.1)⟩

/-- The visible lines are those that go from a first to a last visible pixel. -/
theorem mem_visibleLines_iff :
    v ∈ mask.visibleLines vertical limit ↔ mask.Spans vertical limit v := by
  have hpixels := mask.visiblePixels_pairwise vertical limit v.line
  have hhead := head?_eq_some_iff_of_pairwise Nat.lt_asymm hpixels (a := v.first)
  have hlast := getLast?_eq_some_iff_of_pairwise Nat.lt_asymm hpixels (a := v.last)
  rw [visibleLines, List.mem_filterMap]
  simp only [visibleLine?_eq_some_iff, List.mem_range]
  constructor
  · rintro ⟨_, hline, rfl, hfirst, hlast'⟩
    obtain ⟨hfirst, hmin⟩ := hhead.1 hfirst
    obtain ⟨hlast, hmax⟩ := hlast.1 hlast'
    refine ⟨visibleIn_iff.2 ⟨hline, hfirst⟩, visibleIn_iff.2 ⟨hline, hlast⟩, fun pixel h => ?_⟩
    have := hmin pixel (visibleIn_iff.1 h).2
    have := hmax pixel (visibleIn_iff.1 h).2
    omega
  · rintro ⟨hfirst', hlast', hbetween⟩
    obtain ⟨hline, hfirst'⟩ := visibleIn_iff.1 hfirst'
    obtain ⟨-, hlast'⟩ := visibleIn_iff.1 hlast'
    refine ⟨v.line, hline, rfl, hhead.2 ⟨hfirst', fun pixel h => ?_⟩,
      hlast.2 ⟨hlast', fun pixel h => ?_⟩⟩ <;>
    · have := hbetween pixel (visibleIn_iff.2 ⟨hline, h⟩)
      omega

theorem visibleLines_pairwise (mask : AlphaMask) (vertical : Bool) (limit : Nat) :
    (mask.visibleLines vertical limit).Pairwise fun v w => v.line < w.line := by
  refine List.pairwise_lt_range.filterMap _ fun line line' hlt v hv w hw => ?_
  rwa [(visibleLine?_eq_some_iff.1 hv).1, (visibleLine?_eq_some_iff.1 hw).1]

/-- The visible parts of all lines in the order of their block start. -/
def stackedLines (mask : AlphaMask) (mode : WritingMode) (limit : Nat) : List VisibleLine :=
  if mode.isVerticalRl then (mask.visibleLines mode.vertical limit).reverse
  else mask.visibleLines mode.vertical limit

theorem mem_stackedLines_iff :
    v ∈ mask.stackedLines mode limit ↔ mask.Spans mode.vertical limit v := by
  rw [← mem_visibleLines_iff, stackedLines]
  split
  · exact List.mem_reverse
  · exact Iff.rfl

theorem stackedLines_pairwise (mask : AlphaMask) (mode : WritingMode) (limit : Nat) :
    (mask.stackedLines mode limit).Pairwise (VisibleLine.Before mode) := by
  unfold stackedLines VisibleLine.Before
  split
  · exact List.pairwise_reverse.2 (mask.visibleLines_pairwise mode.vertical limit)
  · exact mask.visibleLines_pairwise mode.vertical limit

/-- Every line with a visible pixel is one of them. -/
theorem mem_map_line_iff :
    line ∈ (mask.stackedLines mode limit).map VisibleLine.line ↔
      ∃ pixel, mask.VisibleIn mode.vertical limit line pixel := by
  rw [List.mem_map]
  constructor
  · rintro ⟨v, hv, rfl⟩
    exact ⟨v.first, (mem_stackedLines_iff.1 hv).first⟩
  · rintro ⟨pixel, hpixel⟩
    obtain ⟨hline, hpixel⟩ := visibleIn_iff.1 hpixel
    have hpixels := List.ne_nil_of_mem hpixel
    obtain ⟨first, hfirst⟩ := Option.ne_none_iff_exists'.1 (mt List.head?_eq_none_iff.1 hpixels)
    obtain ⟨last, hlast⟩ := Option.ne_none_iff_exists'.1 (mt List.getLast?_eq_none_iff.1 hpixels)
    refine ⟨⟨line, first, last⟩, ?_, rfl⟩
    rw [mem_stackedLines_iff, ← mem_visibleLines_iff, visibleLines, List.mem_filterMap]
    exact ⟨line, List.mem_range.2 hline, visibleLine?_eq_some_iff.2 ⟨rfl, hfirst, hlast⟩⟩

end AlphaMask

-- ════════════════════════════════════════════════════════════════════════
-- Runs
-- ════════════════════════════════════════════════════════════════════════

/-- A run in whole numbers. -/
def PixelRun.units (r : PixelRun) : Rect Int := ⟨r.x.units, r.y.units, r.width, r.height⟩

/-- The rectangle from the corner of one rectangle to the far corner of another one. -/
def Rect.upTo (r s : Rect Int) : Rect Int := ⟨r.x, r.y, s.right - r.x, s.bottom - r.y⟩

/-- The square that a pixel covers on the page, when its image has its corner at `corner`. -/
def AlphaMask.square (corner : Point Int) (unit : Int) (column row : Nat) : Rect Int :=
  ⟨corner.x + column * unit, corner.y + row * unit, unit, unit⟩

namespace VisibleLine

variable {v w : VisibleLine}

/-- What a line covers on the page, from its first to its last visible pixel. -/
def covering (v : VisibleLine) (vertical : Bool) (corner : Point Int) (unit : Int) : Rect Int :=
  let square pixel := if vertical then AlphaMask.square corner unit v.line pixel
    else AlphaMask.square corner unit pixel v.line
  (square v.first).upTo (square v.last)

/-- The extent of the visible part of a line. -/
def extent (v : VisibleLine) (unit : Int) : Int := (v.last + 1 - v.first) * unit

/-- Where the visible part of a line starts, seen from the corner of its image. -/
def offset (v : VisibleLine) (mode : WritingMode) (unit : Int) : Point Int :=
  if mode.isVerticalRl then ⟨v.first * unit, -(v.line + 1) * unit⟩
  else if mode.verticalLr ∧ mode.sideways then ⟨-(v.last + 1) * unit, v.line * unit⟩
  else ⟨v.first * unit, v.line * unit⟩

theorem offset_y (v : VisibleLine) (mode : WritingMode) (unit : Int) :
    (v.offset mode unit).y =
      if mode.isVerticalRl then -(v.line + 1) * unit else v.line * unit := by
  unfold offset
  split
  · rfl
  · split <;> rfl

/-- Lines do not reach into one another. -/
theorem Before.offset_y_add_le (h : Before mode v w) (hunit : 0 ≤ unit) :
    (v.offset mode unit).y + unit ≤ (w.offset mode unit).y := by
  rw [offset_y, offset_y]
  unfold Before at h
  by_cases hmode : mode.isVerticalRl = true
  · rw [if_pos hmode] at h
    rw [if_pos hmode, if_pos hmode]
    have hlines : -(v.line + 1 : Int) + 1 ≤ -(w.line + 1) := by omega
    have hunits := Int.mul_le_mul_of_nonneg_right hlines hunit
    rwa [Int.add_mul, Int.one_mul] at hunits
  · rw [if_neg hmode] at h
    rw [if_neg hmode, if_neg hmode]
    have hlines : (v.line + 1 : Int) ≤ w.line := by omega
    have hunits := Int.mul_le_mul_of_nonneg_right hlines hunit
    rwa [Int.add_mul, Int.one_mul] at hunits

/-- The run of a line. -/
def run (v : VisibleLine) (mode : WritingMode) (unit : Int) (origin : Point Length) : PixelRun where
  x := .clamp (origin.x.units + (v.offset mode unit).x)
  y := .clamp (origin.y.units + (v.offset mode unit).y)
  width := v.extent unit
  height := unit

/-- No product and no sum on the way to the run of a line leaves its word. -/
structure Fits (v : VisibleLine) (mode : WritingMode) (unit : Int) (origin : Point Length) :
    Prop where
  extent : Word.bits32.Fits (v.extent unit)
  offset_x : Word.bits32.Fits (v.offset mode unit).x
  offset_y : Word.bits32.Fits (v.offset mode unit).y
  x : Word.bits32.Fits (origin.x.units + (v.offset mode unit).x)
  y : Word.bits32.Fits (origin.y.units + (v.offset mode unit).y)

/-- In every mode, the offset of a line from the corner of its image leads to where the line is. -/
theorem rect_covering (property : WritingModeProperty) (direction : Direction) (v : VisibleLine)
    (corner : Point Int) (unit : Int) (container : Size Int) :
    let mode := WritingMode.ofProperties property direction
    LineRelative.rect (.ofPhysical mode (v.covering mode.vertical corner unit) container)
      container =
      ⟨(LineRelative.point mode corner container).x + (v.offset mode unit).x,
        (LineRelative.point mode corner container).y + (v.offset mode unit).y, v.extent unit,
        unit⟩ := by
  intro mode
  -- Without the base direction there are five modes left.
  rw [LineRelative.rect, LineRelative.point, lineLeft_ofPhysical, lineRelative_ofPhysical]
  cases property <;>
    simp [mode, WritingMode.ofProperties, WritingMode.horizontalTb, WritingMode.isVerticalRl,
      Logical.Rect.ofPhysical, Logical.Point.ofPhysical, covering, AlphaMask.square, Rect.upTo,
      Rect.right, Rect.bottom, offset, extent, Int.add_mul, Int.sub_mul] <;>
    omega

/-- Runs of lines do not reach into one another if their starts are exact. -/
theorem Before.run_y_add_le (h : Before mode v w) (hunit : 0 ≤ unit)
    (hv : (v.run mode unit origin).y.units = origin.y.units + (v.offset mode unit).y)
    (hw : (w.run mode unit origin).y.units = origin.y.units + (w.offset mode unit).y) :
    (v.run mode unit origin).y.units + unit ≤ (w.run mode unit origin).y.units := by
  have := h.offset_y_add_le hunit
  omega

/-- The run of a line is computed without an overflow and without coming back into the range of
    lengths. -/
structure Exact (v : VisibleLine) (mode : WritingMode) (unit : Int) (origin : Point Length) :
    Prop where
  extent : Word.bits32.Fits (v.extent unit)
  offset_x : Word.bits32.Fits (v.offset mode unit).x
  offset_y : Word.bits32.Fits (v.offset mode unit).y
  x : (v.run mode unit origin).x.units = origin.x.units + (v.offset mode unit).x
  y : (v.run mode unit origin).y.units = origin.y.units + (v.offset mode unit).y
  stop : (v.run mode unit origin).stop.units = origin.y.units + (v.offset mode unit).y + unit

theorem Exact.fits (h : v.Exact mode unit origin) : v.Fits mode unit origin where
  extent := h.extent
  offset_x := h.offset_x
  offset_y := h.offset_y
  x := by
    rw [← h.x]
    exact (v.run mode unit origin).x.fits
  y := by
    rw [← h.y]
    exact (v.run mode unit origin).y.fits

theorem Exact.units_stop (h : v.Exact mode unit origin) :
    (v.run mode unit origin).stop.units = (v.run mode unit origin).y.units + unit := by
  rw [h.stop, h.y]

/-- The run of a line is what the line covers, seen from line-left and block-start. -/
theorem Exact.units_run {property : WritingModeProperty} {direction : Direction}
    {corner : Point Length} {container : Size Length}
    (hcorner : LineRelative.PointExact (.ofProperties property direction) corner container)
    (h : v.Exact (.ofProperties property direction) unit
      (LineRelative.point (.ofProperties property direction) corner container)) :
    let mode := WritingMode.ofProperties property direction
    (v.run mode unit (LineRelative.point mode corner container)).units =
      LineRelative.rect (.ofPhysical mode (v.covering mode.vertical corner.units unit)
        container.units) container.units := by
  intro mode
  rw [rect_covering, ← hcorner, PixelRun.units, h.x, h.y]
  rfl

end VisibleLine

namespace PixelArea

variable {v : VisibleLine} {r : PixelRun} {runs : List PixelRun} {a : PixelArea}

theorem offsetOf_eq_ok_iff {dx dy : Int} :
    offsetOf mode unit v = .ok (dx, dy) ↔
      (Word.bits32.Fits (v.offset mode unit).x ∧ Word.bits32.Fits (v.offset mode unit).y) ∧
        (v.offset mode unit).x = dx ∧ (v.offset mode unit).y = dy := by
  have hpair : ∀ x y : Int,
      (do return (← Word.checked32 .multiply x, ← Word.checked32 .multiply y) :
          Except Fault (Int × Int)) = .ok (dx, dy) ↔
        (Word.bits32.Fits x ∧ Word.bits32.Fits y) ∧ x = dx ∧ y = dy := by
    intro x y
    simp only [bind_eq_ok_iff, Word.checked_eq_ok_iff]
    constructor
    · rintro ⟨_, ⟨hx, rfl⟩, _, ⟨hy, rfl⟩, hpair⟩
      cases hpair
      exact ⟨⟨hx, hy⟩, rfl, rfl⟩
    · rintro ⟨⟨hx, hy⟩, rfl, rfl⟩
      exact ⟨_, ⟨hx, rfl⟩, _, ⟨hy, rfl⟩, rfl⟩
  unfold offsetOf VisibleLine.offset
  split
  · exact hpair _ _
  · split
    · exact hpair _ _
    · exact hpair _ _

/-- A line has a run when nothing overflows on the way to it. -/
theorem runOf_eq_ok_iff (v : VisibleLine) (r : PixelRun) :
    runOf mode unit origin v = .ok r ↔ v.Fits mode unit origin ∧ v.run mode unit origin = r := by
  simp only [runOf, bind_eq_ok_iff, Word.checked_eq_ok_iff, Prod.exists, offsetOf_eq_ok_iff]
  constructor
  · rintro ⟨_, ⟨hextent, rfl⟩, _, _, ⟨⟨hdx, hdy⟩, rfl, rfl⟩, _, ⟨hx, rfl⟩, _, ⟨hy, rfl⟩, hr⟩
    cases hr
    exact ⟨⟨hextent, hdx, hdy, hx, hy⟩, rfl⟩
  · rintro ⟨⟨hextent, hdx, hdy, hx, hy⟩, rfl⟩
    exact ⟨_, ⟨hextent, rfl⟩, _, _, ⟨⟨hdx, hdy⟩, rfl, rfl⟩, _, ⟨hx, rfl⟩, _, ⟨hy, rfl⟩, rfl⟩

theorem ofRuns_eq_ok_iff :
    ofRuns runs = .ok a ↔
      (∀ last ∈ runs.getLast?, Word.bits32.Fits (last.y.units + last.height)) ∧
        ⟨runs.toArray, (runs.head?.map PixelRun.y).getD .greatest,
          (runs.getLast?.map PixelRun.stop).getD .least⟩ = a := by
  cases hlast : runs.getLast? with
  | none =>
    cases List.getLast?_eq_none_iff.1 hlast
    rw [show ofRuns [] = .ok empty from rfl, Except.ok.injEq]
    exact (and_iff_right (by simp)).symm
  | some last =>
    obtain ⟨first, rest, rfl⟩ :=
      List.exists_cons_of_ne_nil (List.ne_nil_of_mem (List.mem_of_getLast? hlast))
    simp only [ofRuns, List.head?_cons, hlast, bind_eq_ok_iff, PixelRun.bottom,
      Word.checked_eq_ok_iff, Option.mem_some_iff, forall_eq']
    constructor
    · rintro ⟨_, ⟨_, ⟨hfits, rfl⟩, hstop⟩, ha⟩
      cases hstop
      exact ⟨hfits, Except.ok.inj ha⟩
    · rintro ⟨hfits, rfl⟩
      exact ⟨_, ⟨_, ⟨hfits, rfl⟩, rfl⟩, rfl⟩

/-- A well-formed mask has an area when nothing overflows on the way to the runs of its lines and to
    the end of the last one. -/
theorem ofMask_eq_ok_iff {mask : AlphaMask} {threshold : Single} {limit : Nat}
    {content : Rect Length} {container : Size Length} (hformed : mask.layout.WellFormed)
    (hlimit : alphaLimit? threshold = some limit) :
    ofMask mask unit threshold content mode container = .ok a ↔
      let origin := LineRelative.point mode content.origin container
      (∀ v ∈ mask.stackedLines mode limit, v.Fits mode unit origin) ∧
        ofRuns ((mask.stackedLines mode limit).map (·.run mode unit origin)) = .ok a := by
  have hmap : ∀ f : VisibleLine → PixelRun,
      (if mode.isVerticalRl then ((mask.visibleLines mode.vertical limit).map f).reverse
        else (mask.visibleLines mode.vertical limit).map f) =
          (mask.stackedLines mode limit).map f := by
    intro f
    rw [AlphaMask.stackedLines]
    split
    · exact List.map_reverse.symm
    · rfl
  simp only [ofMask, hlimit, if_pos hformed, bind_eq_ok_iff, mapM_eq_ok_iff runOf_eq_ok_iff,
    AlphaMask.mem_stackedLines_iff, ← AlphaMask.mem_visibleLines_iff, ← hmap]
  constructor
  · rintro ⟨_, ⟨hfits, rfl⟩, ha⟩
    exact ⟨hfits, ha⟩
  · rintro ⟨hfits, ha⟩
    exact ⟨_, ⟨hfits, rfl⟩, ha⟩

/-- An area of a mask is that of the runs of its lines, or it is empty. -/
theorem eq_empty_or_ofRuns_of_ofMask {mask : AlphaMask} {threshold : Single} {content : Rect Length}
    {container : Size Length} (h : ofMask mask unit threshold content mode container = .ok a) :
    a = empty ∨ ∃ limit, mask.layout.WellFormed ∧ alphaLimit? threshold = some limit ∧
      ofRuns ((mask.stackedLines mode limit).map
        (·.run mode unit (LineRelative.point mode content.origin container))) = .ok a := by
  cases hlimit : alphaLimit? threshold with
  | none =>
    rw [ofMask, hlimit] at h
    cases h
  | some limit =>
    by_cases hformed : mask.layout.WellFormed
    · exact .inr ⟨limit, hformed, rfl, ((ofMask_eq_ok_iff hformed hlimit).1 h).2⟩
    · simp only [ofMask, hlimit, if_neg hformed] at h
      cases h
      exact .inl rfl

/-- A mask is laid out over a content box without an overflow and without coming back into the range
    of lengths. -/
structure MaskExact (mask : AlphaMask) (unit : Int) (limit : Nat) (content : Rect Length)
    (mode : WritingMode) (container : Size Length) : Prop where
  origin : LineRelative.PointExact mode content.origin container
  run : ∀ v, mask.Spans mode.vertical limit v →
    v.Exact mode unit (LineRelative.point mode content.origin container)

/-- The area of a mask has one run for each line with a visible pixel. It is what the line covers
    from its first to its last visible pixel, seen in the mode. The runs stand in order and apart,
    and the area goes from where the first one starts to where the last one ends. -/
theorem ofMask_covers (property : WritingModeProperty) (direction : Direction) {mask : AlphaMask}
    {threshold : Single} {limit : Nat} {content : Rect Length} {container : Size Length}
    (hformed : mask.layout.WellFormed) (hunit : 1 ≤ unit)
    (hlimit : alphaLimit? threshold = some limit)
    (hexact : MaskExact mask unit limit content (.ofProperties property direction) container) :
    let mode := WritingMode.ofProperties property direction
    let covered v := VisibleLine.covering v mode.vertical content.origin.units unit
    ∃ (area : PixelArea) (lines : List VisibleLine) (run : VisibleLine → PixelRun),
      ofMask mask unit threshold content mode container = .ok area ∧
      area.runs.toList = lines.map run ∧
      (lines.map VisibleLine.line).Nodup ∧
      (∀ line, line ∈ lines.map VisibleLine.line ↔
        ∃ pixel, mask.VisibleIn mode.vertical limit line pixel) ∧
      (∀ v ∈ lines, mask.Spans mode.vertical limit v ∧
        (run v).units =
          LineRelative.rect (.ofPhysical mode (covered v) container.units) container.units ∧
        ∀ r : Rect Length, r.units = covered v → LineRelative.RectExact mode r [] container →
          (run v).units = (LineRelative.rect (.ofPhysical mode r container) container).units) ∧
      area.runs.toList.Pairwise (fun r r' => r.y < r'.y ∧ r.stop ≤ r'.y) ∧
      area.blockStart = (area.runs.toList.head?.map PixelRun.y).getD .greatest ∧
      area.blockEnd = (area.runs.toList.getLast?.map PixelRun.stop).getD .least := by
  intro mode covered
  let origin := LineRelative.point mode content.origin container
  let lines := mask.stackedLines mode limit
  have hlines : ∀ v ∈ lines, mask.Spans mode.vertical limit v ∧ v.Exact mode unit origin := by
    intro v hv
    have hspans := AlphaMask.mem_stackedLines_iff.1 hv
    exact ⟨hspans, hexact.run v hspans⟩
  have hordered := mask.stackedLines_pairwise mode limit
  refine ⟨_, lines, (·.run mode unit origin), (ofMask_eq_ok_iff hformed hlimit).2
    ⟨fun v hv => (hlines v hv).2.fits, ofRuns_eq_ok_iff.2 ⟨?_, rfl⟩⟩, rfl, ?_,
    fun line => AlphaMask.mem_map_line_iff, fun v hv => ?_, ?_, rfl, rfl⟩
  · intro last hlast
    obtain ⟨v, hv, rfl⟩ := List.mem_map.1 (List.mem_of_getLast? hlast)
    exact (hlines v hv).2.units_stop ▸ Length.fits _
  · exact List.pairwise_map.2 (hordered.imp VisibleLine.Before.line_ne)
  · obtain ⟨hspans, hv⟩ := hlines v hv
    have hunits := hv.units_run hexact.origin
    refine ⟨hspans, hunits, fun r hr hrect => hunits.trans ?_⟩
    change LineRelative.rect (.ofPhysical mode (covered v) container.units) container.units = _
    rw [← hr]
    exact hrect.symm
  · refine List.pairwise_map.2 (hordered.imp_of_mem fun {v w} hv hw hbefore => ?_)
    have hv := (hlines v hv).2
    have hle := hbefore.run_y_add_le (by omega) hv.y (hlines w hw).2.y
    refine ⟨Int.lt_of_lt_of_le (Int.lt_add_of_pos_right _ (by omega)) hle, ?_⟩
    rw [Length.le_def, hv.units_stop]
    exact hle

/-- A square of pixels, one of them fainter, with another pixel at its far corner. -/
def steps : AlphaMask := ⟨#[0, 255, 255, 0, 0, 255, 200, 0, 0, 0, 0, 255], 4, ⟨4, 3⟩⟩

/-- In a mode whose lines run upwards, the columns of `steps` start at their lower ends. -/
theorem steps_ofMask_covers :
    let mode := WritingMode.ofProperties .sidewaysLr .rtl
    let content : Rect Length := ⟨30, 20, 240, 180⟩
    let covered v := VisibleLine.covering v mode.vertical ⟨30, 20⟩ 60
    steps.layout.WellFormed ∧ alphaLimit? (.finite (13421773 / 16777216)) = some 204 ∧
      MaskExact steps 60 204 content mode ⟨300, 400⟩ ∧
      ∃ (area : PixelArea) (lines : List VisibleLine) (run : VisibleLine → PixelRun),
        ofMask steps 60 (.finite (13421773 / 16777216)) content mode ⟨300, 400⟩ = .ok area ∧
        area.runs.toList = [⟨260, 90, 120, 60⟩, ⟨320, 150, 60, 60⟩, ⟨200, 210, 60, 60⟩] ∧
        area.runs.toList = lines.map run ∧
        (∀ line, line ∈ lines.map VisibleLine.line ↔
          ∃ pixel, steps.VisibleIn true 204 line pixel) ∧
        (∀ v ∈ lines, steps.Spans true 204 v ∧
          (run v).units = LineRelative.rect (.ofPhysical mode (covered v) ⟨300, 400⟩) ⟨300, 400⟩) ∧
        area.blockStart = 90 ∧ area.blockEnd = 270 := by
  intro mode content covered
  have hformed : steps.layout.WellFormed := by decide
  have hlimit : alphaLimit? (.finite (13421773 / 16777216)) = some 204 := by decide +kernel
  have hexact : MaskExact steps 60 204 content mode ⟨300, 400⟩ := by
    refine ⟨rfl, fun v hv => ?_⟩
    have hlines : steps.visibleLines mode.vertical 204 = [⟨1, 0, 1⟩, ⟨2, 0, 0⟩, ⟨3, 2, 2⟩] := by
      decide +kernel
    rw [← AlphaMask.mem_visibleLines_iff, hlines] at hv
    simp only [List.mem_cons, List.not_mem_nil, or_false] at hv
    rcases hv with rfl | rfl | rfl <;> constructor <;> decide +kernel
  obtain ⟨area, lines, run, harea, hruns, -, hline, hrun, -, -, -⟩ :=
    ofMask_covers .sidewaysLr .rtl hformed (by decide) hlimit hexact
  have hconcrete : ofMask steps 60 (.finite (13421773 / 16777216)) content mode ⟨300, 400⟩ =
      .ok ⟨#[⟨260, 90, 120, 60⟩, ⟨320, 150, 60, 60⟩, ⟨200, 210, 60, 60⟩], 90, 270⟩ := by
    decide +kernel
  cases harea.symm.trans hconcrete
  exact ⟨hformed, hlimit, hexact, _, lines, run, hconcrete, rfl, hruns, hline,
    fun v hv => ⟨(hrun v hv).1, (hrun v hv).2.1⟩, rfl, rfl⟩

end PixelArea

end FloatLayout
