import FloatLayout.Proofs.BandHeight

/-!
# Open bands

Who walks down a content area from band to band stops at the band of the greatest height and takes
it to be open. The greatest height is also what a band gets that is higher than lengths can say, so a
band that starts above the origin may have it and still end at a float.

## Main definitions

- `FloatContext.blockSize_eq_greatest_iff`: the bands of the greatest height, by where they are cut.
- `FloatContext.Reachable.open_band_clear`: what no float does below the start of such a band.
- `FloatContext.open_band_above_float`: what a float may do there.
-/

namespace FloatLayout

namespace FloatContext

variable {c : FloatContext} {q : FlowQuery} {a : FlowArea}

/-- The block size of an answer to an open question, above all floats and below them. -/
theorem Reachable.blockSize_of_open (h : c.Reachable) (hopen : q.blockSize = .greatest)
    (ha : c.flowArea q = .ok a) :
    a.rect.blockSize =
      if c.cutEnd q = .greatest then .greatest else c.cutEnd q - c.startOf q := by
  obtain ⟨hadmits, ⟨hbelow, rfl⟩ | ⟨-, -, s, hs, rfl⟩⟩ := flowArea_eq_ok_iff.1 ha
  · have hend : c.cutEnd q = .greatest := (cutEnd_of_belowAll hbelow).trans (if_pos hopen)
    rw [if_pos hend]
    exact hopen
  · rw [walk_visible (h.visible_wellMarked q) hadmits.blockSize] at hs
    cases hscan : Clearing.scan q.area (c.linesOf q) (c.visible q) (c.clearingOf q) with
    | error fault =>
      rw [hscan] at hs
      cases hs
    | ok t =>
      rw [hscan] at hs
      cases hs
      exact blockSize_answer (Clearing.scan_blockEnd hscan)

/-- A distance is the greatest one, cut off or not, exactly from the sum of the start and the
    greatest length on. -/
theorem openSize_eq_greatest_iff {start stop : Length} :
    (if stop = .greatest then .greatest else stop - start) = Length.greatest ↔
      start + .greatest ≤ stop := by
  have := start.lower
  have := stop.upper
  split
  · next hstop =>
    subst hstop
    simp only [Length.le_def, Length.units_add, Length.units_greatest, true_iff]
    omega
  · next hstop =>
    simp only [Length.ext_iff, Length.le_def, Length.units_add, Length.units_sub,
      Length.units_greatest] at *
    omega

/-- A band has the greatest height exactly if no float that the walk comes to cuts it off before that
    height is full. -/
theorem blockSize_eq_greatest_iff (h : c.Reachable) (hkind : q.kind = .fromPoint)
    (hopen : q.blockSize = .greatest) (ha : c.flowArea q = .ok a) :
    a.rect.blockSize = .greatest ↔
      ∀ f ∈ c.visible q, ¬f.AllAbove (c.startOf q) →
        ∀ p, f.cutAt? q.area (c.startOf q) = some p → c.startOf q + .greatest ≤ p := by
  have hstop : c.startOf q + .greatest ≤ c.stopOf q := by
    rw [show c.stopOf q = .greatest from if_pos hopen]
    exact Length.le_greatest _
  rw [h.blockSize_of_open hopen ha, openSize_eq_greatest_iff, cutEnd, Length.le_foldl_min_iff]
  constructor
  · rintro ⟨-, hcuts⟩ f hf habove p hp
    exact hcuts p ((mem_cuts_iff h hkind).2 ⟨f, hf, habove, hp⟩)
  · intro hcuts
    refine ⟨hstop, fun p hp => ?_⟩
    obtain ⟨f, hf, habove, hp⟩ := (mem_cuts_iff h hkind).1 hp
    exact hcuts f hf habove p hp

/-- Below the start of a band of the greatest height, a float whose margin box reaches there neither
    starts nor ends, if its area crosses the first line, before that height is full, and all lines up
    to there are crossed by the same floats. From the origin on that is the whole block axis. -/
theorem Reachable.open_band_clear (h : c.Reachable) (hkind : q.kind = .fromPoint)
    (hopen : q.blockSize = .greatest) (ha : c.flowArea q = .ok a)
    (hsize : a.rect.blockSize = .greatest) :
    (∀ f ∈ c.visible q, f.isEmpty q.area = false → c.startOf q < f.rect.bottom →
      (c.startOf q < f.blockStart q.area → c.startOf q + .greatest ≤ f.blockStart q.area) ∧
        (f.blockStart q.area ≤ c.startOf q → c.startOf q < f.blockEnd q.area →
          c.startOf q + .greatest ≤ f.blockEnd q.area)) ∧
      (∀ y, c.startOf q < y → y < c.startOf q + .greatest → ¬c.Changes q y) ∧
      (0 ≤ c.startOf q → c.startOf q + .greatest = .greatest) := by
  have hcuts := (blockSize_eq_greatest_iff h hkind hopen ha).1 hsize
  refine ⟨fun f hf hfull hreach => ?_, fun y hstart hy hchange => ?_, fun horigin => ?_⟩
  · have hmarks := h.visible_wellMarked q
    have hwalked := hcuts f hf fun habove => lt_irrefl _
      (lt_of_lt_of_le hreach (hmarks.bottom_le_of_allAbove hf habove))
    constructor
    · intro hbelow
      exact hwalked _ (PlacedFloat.cutAt?_eq_some_iff.2 ⟨hfull, .inl ⟨hbelow, rfl⟩⟩)
    · intro hstart hend
      exact hwalked _ (PlacedFloat.cutAt?_eq_some_iff.2 ⟨hfull, .inr ⟨hstart, hend, rfl⟩⟩)
  · obtain ⟨f, hf, habove, p, hp, hpy⟩ := exists_cutAt?_le_of_changes h hstart hchange
    have hfull := le_trans (hcuts f hf habove p hp) hpy
    exact lt_irrefl _ (lt_of_lt_of_le hy hfull)
  · simp only [Length.ext_iff, Length.le_def, Length.units_add, Length.units_greatest,
      Length.units_zero] at *
    omega

/-- The float of `faraway` starts just where the height of the band above it is full. -/
theorem faraway_open_band_clear :
    ∃ f ∈ faraway.visible aboveFaraway, f.blockStart .marginBox = 1073741813 ∧
      faraway.startOf aboveFaraway + .greatest ≤ f.blockStart .marginBox ∧
      ∀ y, faraway.startOf aboveFaraway < y → y < 1073741813 → ¬faraway.Changes aboveFaraway y := by
  have hband : faraway.flowArea aboveFaraway =
      .ok ⟨⟨.horizontalTb, 0, -10, 200, .greatest⟩, false, false⟩ := rfl
  obtain ⟨hclear, hsame, -⟩ := faraway_reachable.open_band_clear rfl rfl hband rfl
  obtain ⟨hstart, -⟩ := hclear _ List.mem_cons_self rfl (by decide)
  exact ⟨_, List.mem_cons_self, rfl, hstart (by decide), hsame⟩

/-- A float that is not empty starts below the start of the range of a question. -/
def HasFloatBelow (c : FloatContext) (q : FlowQuery) : Prop :=
  ∃ f ∈ c.visible q, f.isEmpty q.area = false ∧ c.startOf q < f.blockStart q.area ∧
    f.blockStart q.area < .greatest

/-- A question for the band between the margin box of the float of `outlying` and its shape. -/
def belowOutlying : FlowQuery := { besideOutlying with blockStart := 120 }

/-- A band of the greatest height may start above a float: above the float of `faraway` that height
    is just full, and the walk stops at the margin box of `outlying`, below which its shape lies. -/
theorem open_band_above_float :
    (faraway.Reachable ∧ faraway.Admits aboveFaraway ∧ faraway.HasFloatBelow aboveFaraway ∧
      ∃ a, faraway.flowArea aboveFaraway = .ok a ∧ a.rect.blockSize = .greatest) ∧
      outlying.Reachable ∧ outlying.Admits belowOutlying ∧ outlying.HasFloatBelow belowOutlying ∧
      ∃ a, outlying.flowArea belowOutlying = .ok a ∧ a.rect.blockSize = .greatest := by
  have hfaraway : faraway.flowArea aboveFaraway =
      .ok ⟨⟨.horizontalTb, 0, -10, 200, .greatest⟩, false, false⟩ := rfl
  have houtlying : outlying.flowArea belowOutlying =
      .ok ⟨⟨.horizontalTb, 0, 120, 200, .greatest⟩, false, false⟩ := rfl
  refine ⟨⟨faraway_reachable, ⟨by decide, by decide, by decide, by decide⟩, ?_, _, hfaraway, rfl⟩,
    outlying_reachable, ⟨by decide, by decide, by decide, by decide⟩, ?_, _, houtlying, rfl⟩
  · exact ⟨_, List.mem_cons_self, rfl, by decide, by decide⟩
  · exact ⟨_, List.mem_cons_self, rfl, by decide, by decide⟩

end FloatContext

end FloatLayout
