import FloatLayout.FloatContext.Clearance
import FloatLayout.Proofs.FlowAnswer

/-!
# Clearance

A box that clears floats moves down to the first position past all of them. Clearance reads the two
watermarks of the last float and looks at no other one, while a question for a flow area looks at
every float and its shape. Both agree, because the watermarks reach as far down as the floats do and
no shape reaches below its margin box.

## Main definitions

- `ClearSide.Clears`: floats of a line side are cleared.
- `FloatContext.Past`: a position lies at the end of every cleared float or below it.
- `FloatContext.clearedEnd`: how far down a position and the cleared floats reach.
- `FloatContext.clear_eq`: clearance, by the floats themselves.
-/

namespace FloatLayout

/-- Floats of a line side are cleared. -/
def ClearSide.Clears (clear : ClearSide) : LineSide → Prop
  | .left => clear.clearsLeft = true
  | .right => clear.clearsRight = true

instance (clear : ClearSide) (side : LineSide) : Decidable (clear.Clears side) := by
  cases side <;> exact inferInstanceAs (Decidable (_ = true))

/-- The line side where lines start. -/
def WritingMode.startSide (mode : WritingMode) : LineSide := if mode.isLtr then .left else .right

namespace FloatContext

variable {c : FloatContext} {q : FlowQuery} {a : FlowArea} {clear : ClearSide}
  {position p : Length} {placedOnly : Bool} {side : LineSide}

/-- The margin boxes of all floats on cleared sides end at a position of the containing block or
    above it. -/
def Past (c : FloatContext) (clear : ClearSide) (p : Length) : Prop :=
  ∀ f ∈ c.floats, clear.Clears f.side → f.rect.bottom.units ≤ p.units + c.offset.y.units

/-- The farthest down of a position of the containing block and of the ends of all floats on cleared
    sides, in the coordinates of the context. -/
def clearedEnd (c : FloatContext) (position : Length) (clear : ClearSide) : Length :=
  ((c.floats.filter fun f => clear.Clears f.side).map (·.rect.bottom)).foldl max
    (position + c.offset.y)

/-- Neither the sum nor the difference that clearance computes was brought back into the range of
    lengths. Without floats it computes none. -/
structure ClearExact (c : FloatContext) (position : Length) (clear : ClearSide) : Prop where
  start : c.floats ≠ [] → (position + c.offset.y).units = position.units + c.offset.y.units
  stop : c.floats ≠ [] → (c.clearedEnd position clear - c.offset.y).units =
    (c.clearedEnd position clear).units - c.offset.y.units

theorem clearedEnd_le_iff :
    c.clearedEnd position clear ≤ p ↔ position + c.offset.y ≤ p ∧
      ∀ f ∈ c.floats, clear.Clears f.side → f.rect.bottom ≤ p := by
  rw [clearedEnd, Length.foldl_max_le_iff, List.forall_mem_map]
  simp only [List.mem_filter, decide_eq_true_eq, and_imp]

-- ════════════════════════════════════════════════════════════════════════
-- The cleared position
-- ════════════════════════════════════════════════════════════════════════

theorem clear_of_continues (hplaced : placedOnly = false)
    (hcontinues : c.clearContinues clear = true) :
    c.clear position clear placedOnly = .greatest := by
  simp [FloatContext.clear, hplaced, hcontinues]

theorem not_continues (hopen : placedOnly = true ∨ c.clearContinues clear = false) :
    ¬(!placedOnly && c.clearContinues clear) = true := by
  rcases hopen with h | h <;> simp [h]

theorem clear_of_nil (hopen : placedOnly = true ∨ c.clearContinues clear = false)
    (hfloats : c.floats = []) : c.clear position clear placedOnly = position := by
  rw [FloatContext.clear, if_neg (not_continues hopen), hfloats]
  rfl

/-- The watermarks of the last float stand for all floats: clearance is the farthest down end of the
    cleared floats, brought back into the containing block. -/
theorem Reachable.clear_eq (h : c.Reachable)
    (hopen : placedOnly = true ∨ c.clearContinues clear = false) (hfloats : c.floats ≠ []) :
    c.clear position clear placedOnly = c.clearedEnd position clear - c.offset.y := by
  obtain ⟨last, rest, hlast⟩ := List.exists_cons_of_ne_nil hfloats
  have hmarks := h.wellMarked
  rw [hlast] at hmarks
  have hleft : last.leftEnd = sideEnd .left (last :: rest) := hmarks.head .left
  have hright : last.rightEnd = sideEnd .right (last :: rest) := hmarks.head .right
  rw [FloatContext.clear, if_neg (not_continues hopen), hlast]
  refine congrArg (· - c.offset.y) (eq_of_forall_ge_iff fun p => ?_)
  rw [clearedEnd_le_iff, hlast]
  have hsplit : (∀ f ∈ last :: rest, clear.Clears f.side → f.rect.bottom ≤ p) ↔
      (clear.Clears .left → last.leftEnd ≤ p) ∧ (clear.Clears .right → last.rightEnd ≤ p) := by
    rw [hleft, hright, sideEnd_le_iff, sideEnd_le_iff]
    constructor
    · intro hall
      exact ⟨fun hc f hf hs => hall f hf (hs ▸ hc), fun hc f hf hs => hall f hf (hs ▸ hc)⟩
    · rintro ⟨hl, hr⟩ f hf hc
      cases hs : f.side with
      | left => exact hl (hs ▸ hc) f hf hs
      | right => exact hr (hs ▸ hc) f hf hs
  rw [hsplit]
  cases clear <;>
    simp [ClearSide.Clears, ClearSide.clearsLeft, ClearSide.clearsRight, and_assoc]

/-- Clearance moves a box down to the first position past all cleared floats. -/
theorem Reachable.clear_first (h : c.Reachable)
    (hopen : placedOnly = true ∨ c.clearContinues clear = false)
    (hexact : c.ClearExact position clear) :
    position ≤ c.clear position clear placedOnly ∧
      c.Past clear (c.clear position clear placedOnly) ∧
      ∀ p, position ≤ p → c.Past clear p → c.clear position clear placedOnly ≤ p := by
  by_cases hfloats : c.floats = []
  · rw [clear_of_nil hopen hfloats]
    refine ⟨le_refl _, fun f hf => ?_, fun p hp _ => hp⟩
    rw [hfloats] at hf
    cases hf
  · have hstart := hexact.start hfloats
    have hstop := hexact.stop hfloats
    rw [h.clear_eq hopen hfloats]
    obtain ⟨hbelow, hends⟩ := clearedEnd_le_iff.1 (le_refl (c.clearedEnd position clear))
    rw [Length.le_def] at hbelow
    refine ⟨?_, fun f hf hside => ?_, fun p hp hpast => ?_⟩
    · rw [Length.le_def]
      omega
    · have hend := hends f hf hside
      rw [Length.le_def] at hend
      omega
    · have hle : c.clearedEnd position clear ≤ p + c.offset.y := by
        refine clearedEnd_le_iff.2 ⟨?_, fun f hf hside => ?_⟩
        · rw [Length.le_def] at hp
          simp only [Length.le_def, Length.units_add]
          omega
        · have hend := hpast f hf hside
          have := f.rect.bottom.lower
          have := f.rect.bottom.upper
          simp only [Length.le_def, Length.units_add]
          omega
      -- The sum does not leave the range at its lower end, because `p` lies below `position`.
      have := (position + c.offset.y).lower
      rw [Length.le_def] at hp
      rw [Length.le_def, Length.units_add] at hle
      rw [Length.le_def]
      omega

-- ════════════════════════════════════════════════════════════════════════
-- Questions past the floats
-- ════════════════════════════════════════════════════════════════════════

theorem bottom_le_startOf (hpast : c.Past clear p) (hp : p ≤ q.blockStart) :
    ∀ f ∈ c.floats, clear.Clears f.side → f.rect.bottom ≤ c.startOf q := by
  intro f hf hside
  have hend := hpast f hf hside
  have := f.rect.bottom.lower
  have := f.rect.bottom.upper
  rw [Length.le_def] at hp
  simp only [startOf, Length.le_def, Length.units_add]
  omega

/-- Past the floats of a side, no shape of theirs moves the edge of the content area on that side. -/
theorem freeEdge_of_past (hvisible : c.visible q = c.floats) (hpast : c.Past clear p)
    (hp : p ≤ q.blockStart) (hside : clear.Clears side) :
    c.freeEdge q side = c.contentEdge q side := by
  have hnone : innerEdges q.area (c.linesOf q) side (c.visible q) = [] := by
    apply innerEdges_eq_nil
    intro f hf hs
    subst hs
    exact PlacedFloat.not_counts_of_bottom_le
      (bottom_le_startOf hpast hp f (hvisible ▸ hf) hside)
  rw [freeEdge, hnone, List.foldl_nil]

theorem Reachable.belowAll_of_past (h : c.Reachable) (hvisible : c.visible q = c.floats)
    (hpast : c.Past .both p) (hp : p ≤ q.blockStart) : c.BelowAll q := by
  intro last hlast
  rw [hvisible] at hlast
  obtain ⟨rest, hfloats⟩ := List.head?_eq_some_iff.1 hlast
  have hends := bottom_le_startOf hpast hp
  have hmarks := h.wellMarked
  rw [hfloats] at hmarks hends
  have hmark : ∀ side, last.mark side ≤ c.startOf q := by
    intro side
    rw [hmarks.head side, sideEnd_le_iff]
    intro f hf _
    exact hends f hf (by cases f.side <;> rfl)
  exact ⟨hmark .left, hmark .right⟩

/-- Where no float moved an edge, the answer has the edge of the content area, unless its edges cross
    and lines start at the other one. -/
theorem Describes.lineEdge_eq (ha : c.Describes q a) (hinline : c.InlineExact q)
    (hfree : c.freeEdge q side = c.contentEdge q side)
    (hside : q.mode.startSide = side ∨ a.isNegative = false) :
    a.rect.units.lineEdge q.container.units side =
      q.content.units.lineEdge q.container.units side := by
  have hopen := ha.isNegative_eq_false_iff.1
  have hcontent := hinline.edge side
  cases side with
  | left =>
    have hmode : q.mode.startSide = .left → q.mode.isLtr = true := by
      cases hltr : q.mode.isLtr <;> simp [WritingMode.startSide, hltr]
    have hedge := ha.left (hside.imp hmode hopen)
    rw [hfree] at hedge
    omega
  | right =>
    have hmode : q.mode.startSide = .right → q.mode.isLtr = false := by
      cases hltr : q.mode.isLtr <;> simp [WritingMode.startSide, hltr]
    have hedge := ha.right (hside.imp hmode hopen)
    rw [hfree] at hedge
    omega

/-- Clearance is the first position past all floats on the cleared sides, or the greatest length if
    such a float continues after the break. From that position on, no float moves the edge of the
    content area on a cleared side, and past the floats of both sides the content area is free. -/
theorem Reachable.clear_past_floats (h : c.Reachable) (position : Length) (clear : ClearSide)
    (placedOnly : Bool) :
    (placedOnly = false → c.clearContinues clear = true →
        c.clear position clear placedOnly = .greatest) ∧
      (placedOnly = true ∨ c.clearContinues clear = false → c.ClearExact position clear →
        (position ≤ c.clear position clear placedOnly ∧
          c.Past clear (c.clear position clear placedOnly) ∧
          ∀ p, position ≤ p → c.Past clear p → c.clear position clear placedOnly ≤ p) ∧
        ∀ q : FlowQuery, q.checkpoint = none →
          c.clear position clear placedOnly ≤ q.blockStart → c.Admits q →
          (∀ side, clear.Clears side → c.freeEdge q side = c.contentEdge q side) ∧
          (q.content.mode = q.mode → c.BlockExact q → c.InlineExact q → c.RunsBounded q →
            ∃ a, c.flowArea q = .ok a ∧ c.Describes q a ∧
              ∀ side, clear.Clears side → q.mode.startSide = side ∨ a.isNegative = false →
                a.rect.units.lineEdge q.container.units side =
                  q.content.units.lineEdge q.container.units side) ∧
          (clear = .both → c.flowArea q = .ok ⟨⟨q.mode, q.content.inlineStart, q.blockStart,
            q.content.inlineSize, q.blockSize⟩, false, false⟩)) := by
  refine ⟨clear_of_continues, fun hopen hexact => ?_⟩
  have hfirst := h.clear_first hopen hexact
  refine ⟨hfirst, fun q hcheckpoint hp hadmits => ?_⟩
  have hpast := hfirst.2.1
  have hvisible : c.visible q = c.floats := by
    unfold visible
    rw [hcheckpoint]
  have hfree : ∀ side, clear.Clears side → c.freeEdge q side = c.contentEdge q side :=
    fun side hside => freeEdge_of_past hvisible hpast hp hside
  refine ⟨hfree, fun hcontent hblock hinline hruns => ?_, ?_⟩
  · obtain ⟨a, ha, hdescribes⟩ := h.exists_describes hadmits hcontent hblock hinline hruns
    refine ⟨a, ha, hdescribes, fun side hside hedge => ?_⟩
    exact hdescribes.lineEdge_eq hinline (hfree side hside) hedge
  · rintro rfl
    have hbelow := h.belowAll_of_past hvisible hpast hp
    have hsize : max q.content.inlineSize 0 = q.content.inlineSize := by
      have := hadmits.inlineSize
      rw [Length.le_def] at this
      rw [Length.ext_iff, Length.units_max]
      omega
    have hnegative : ¬q.content.inlineSize < 0 := not_lt.2 hadmits.inlineSize
    refine flowArea_eq_ok_iff.2 ⟨hadmits, .inl ⟨hbelow, ?_⟩⟩
    simp only [FlowArea.make, hsize, hnegative, decide_false]

/-- A box at 5 moves down to 50, where only the left floats of `refilled` are left. Past the floats of
    both sides, from 90 on, the content area is free. -/
theorem refilled_clear_past_floats :
    refilled.Reachable ∧ refilled.clear 5 .right false = 50 ∧
      (∀ p, 5 ≤ p → refilled.Past .right p → 50 ≤ p) ∧
      (∃ a, refilled.flowArea { besideRefilled with blockStart := 50 } = .ok a ∧
        a.rect.units.lineEdge ⟨200, 1000⟩ .right = 180 ∧ a.hasFloats = true) ∧
      refilled.clear 5 .both false = 90 ∧
      refilled.flowArea { besideRefilled with blockStart := 90 } =
        .ok ⟨⟨besideRefilled.mode, 20, 90, 180, 20⟩, false, false⟩ := by
  have hbeside : refilled.Admits besideRefilled := ⟨by decide, by decide, by decide, by decide⟩
  have hadmits : ∀ p, refilled.Admits { besideRefilled with blockStart := p } :=
    fun p => ⟨hbeside.mode, hbeside.blockSize, hbeside.inlineSize, hbeside.checkpoint⟩
  obtain ⟨⟨-, -, hleast⟩, hpast⟩ := (refilled_reachable.clear_past_floats 5 .right false).2
    (.inr rfl) ⟨fun _ => rfl, fun _ => rfl⟩
  obtain ⟨-, hanswer, -⟩ := hpast { besideRefilled with blockStart := 50 } rfl (by decide)
    (hadmits 50)
  obtain ⟨a, ha, -, hedge⟩ := hanswer rfl ⟨rfl, fun _ => rfl⟩
    ⟨fun side => by cases side <;> rfl, rfl, fun _ => rfl, fun _ => rfl⟩
    (refilled_runsBounded _)
  have hvalue : refilled.flowArea { besideRefilled with blockStart := 50 } =
      .ok ⟨⟨besideRefilled.mode, 20, 50, 130, 20⟩, true, false⟩ := rfl
  cases hvalue.symm.trans ha
  obtain ⟨-, hpast'⟩ := (refilled_reachable.clear_past_floats 5 .both false).2
    (.inr rfl) ⟨fun _ => rfl, fun _ => rfl⟩
  obtain ⟨-, -, hfree⟩ := hpast' { besideRefilled with blockStart := 90 } rfl (by decide)
    (hadmits 90)
  exact ⟨refilled_reachable, rfl, hleast, ⟨_, ha, hedge .right rfl (.inl rfl), rfl⟩, rfl,
    hfree rfl⟩

end FloatContext

end FloatLayout
