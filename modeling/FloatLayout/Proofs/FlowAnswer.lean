import FloatLayout.Proofs.Walk

/-!
# Answers of float contexts

The answer to a question is what a plain scan of all floats that the question sees leaves of the
content area. A question below all floats gets the content area back at once, which is the same.

## Main definitions

- `FloatContext.Admits`: the preconditions of a question.
- `FloatContext.freeEdge`: the edge that all floats of a side leave.
- `FloatContext.flowArea_eq_ok_iff`: the two ways to an answer.
- `FloatContext.Describes`: an answer gives the edges that all floats leave.

## Design notes

Answers are compared in whole numbers. The hypotheses `BlockExact` and `InlineExact` say, of the
computed numbers alone, that no sum and no difference was brought back into the range of lengths.
-/

namespace FloatLayout

/-- A size in whole numbers. -/
def Size.units (s : Size Length) : Size Int := ⟨s.width.units, s.height.units⟩

namespace Logical.Rect

/-- A rectangle in whole numbers. -/
def units (r : Rect Length) : Rect Int :=
  ⟨r.mode, r.inlineStart.units, r.blockStart.units, r.inlineSize.units, r.blockSize.units⟩

variable {α : Type} [Add α] [Sub α]

/-- The edge on a line side, from the line-left edge of the container. -/
def lineEdge (r : Rect α) (container : FloatLayout.Size α) : LineSide → α
  | .left => r.lineLeft container
  | .right => r.lineRight container

end Logical.Rect

namespace FloatContext

variable {c : FloatContext} {q : FlowQuery} {a : FlowArea} {s : Clearing}

/-- The preconditions of a question, whether floats come near it or not. -/
structure Admits (c : FloatContext) (q : FlowQuery) : Prop where
  mode : c.mode.SameDirections q.mode
  blockSize : 0 ≤ q.blockSize
  inlineSize : 0 ≤ q.content.inlineSize
  checkpoint : ∀ p ∈ q.checkpoint, p.count ≤ c.floats.length

/-- The range of a question starts below all floats that it sees. -/
def BelowAll (c : FloatContext) (q : FlowQuery) : Prop :=
  ∀ last ∈ (c.visible q).head?, last.AllAbove (c.startOf q)

instance (c : FloatContext) (q : FlowQuery) : Decidable (c.BelowAll q) :=
  inferInstanceAs (Decidable (∀ last ∈ (c.visible q).head?, last.AllAbove (c.startOf q)))

/-- The block end of the range of a question, in the coordinates of the context. -/
def stopOf (c : FloatContext) (q : FlowQuery) : Length :=
  if q.blockSize = .greatest then .greatest else c.startOf q + q.blockSize

/-- The lines along which a question looks at floats. -/
def linesOf (c : FloatContext) (q : FlowQuery) : Band :=
  q.kind.lines ⟨c.startOf q, c.stopOf q⟩

/-- The edge of the content area on a line side, in the coordinates of the context. -/
def contentEdge (c : FloatContext) (q : FlowQuery) (side : LineSide) : Length :=
  c.offset.x + q.content.lineEdge q.container side

/-- The edge that is left on a line side: the farthest in of the edge of the content area and of the
    edges of all floats that count. -/
def freeEdge (c : FloatContext) (q : FlowQuery) (side : LineSide) : Length :=
  (innerEdges q.area (c.linesOf q) side (c.visible q)).foldl side.opposite.outer
    (c.contentEdge q side)

/-- The block range of a question was not brought back into the range of lengths. -/
structure BlockExact (c : FloatContext) (q : FlowQuery) : Prop where
  start : (c.startOf q).units = q.blockStart.units + c.offset.y.units
  stop : q.blockSize ≠ .greatest →
    (c.stopOf q).units = (c.startOf q).units + q.blockSize.units

/-- The inline edges of a question and of its answer were not brought back into the range of
    lengths. -/
structure InlineExact (c : FloatContext) (q : FlowQuery) : Prop where
  edge : ∀ side, (c.contentEdge q side).units =
    c.offset.x.units + q.content.units.lineEdge q.container.units side
  size : (c.freeEdge q .right - c.freeEdge q .left).units =
    (c.freeEdge q .right).units - (c.freeEdge q .left).units
  ltr : q.mode.isLtr = true → (c.freeEdge q .left - c.offset.x).units =
    (c.freeEdge q .left).units - c.offset.x.units
  rtl : q.mode.isLtr = false →
    (c.offset.x - c.freeEdge q .right + q.mode.inlineSizeOf q.container).units =
      c.offset.x.units - (c.freeEdge q .right).units + (q.mode.inlineSizeOf q.container).units

/-- No sum that gives a far edge of a pixel run, of any float that a question sees, leaves its
    word. -/
def RunsBounded (c : FloatContext) (q : FlowQuery) : Prop :=
  ∀ f ∈ c.visible q, ∀ shape ∈ f.areaShape q.area, shape.Bounded

-- ════════════════════════════════════════════════════════════════════════
-- Ways to an answer
-- ════════════════════════════════════════════════════════════════════════

/-- The floats that a question sees are those placed up to some point in time. -/
theorem visible_suffix (c : FloatContext) (q : FlowQuery) : c.visible q <:+ c.floats := by
  unfold visible
  split
  · exact List.suffix_refl _
  · exact List.drop_suffix _ _

/-- Margin boxes have no pixel runs. -/
theorem runsBounded_of_marginBox (h : q.area = .marginBox) : c.RunsBounded q := by
  rintro f - shape hshape
  rw [h] at hshape
  cases hshape

/-- No question leaves a word if the far edges of the runs of all floats fit theirs. -/
theorem runsBounded_of_floats (h : ∀ f ∈ c.floats, ∀ shape ∈ f.shape, shape.Bounded)
    (q : FlowQuery) : c.RunsBounded q := by
  cases harea : q.area with
  | marginBox => exact runsBounded_of_marginBox harea
  | shapeOutside =>
    intro f hf shape hshape
    rw [harea] at hshape
    exact h f ((visible_suffix c q).subset hf) shape hshape

/-- A question has an answer when its preconditions hold. The answer is the content area, below all
    floats, and what the walk leaves elsewhere. -/
theorem flowArea_eq_ok_iff :
    c.flowArea q = .ok a ↔ c.Admits q ∧
      (c.BelowAll q ∧ a = .make q.mode q.content.inlineStart q.blockStart q.content.inlineSize
          q.blockSize false ∨
        ¬c.BelowAll q ∧ q.content.mode = q.mode ∧
          ∃ s, Clearing.walk q.kind q.area (c.startOf q) (c.visible q) (c.clearingOf q) = .ok s ∧
            a = c.answer q s) := by
  unfold flowArea expectDirections Logical.expectMode
  simp only [require_bind_eq_ok_iff]
  constructor
  · rintro ⟨hmode, hblock, hinline, hcheckpoint, h⟩
    refine ⟨⟨hmode, hblock, hinline, hcheckpoint⟩, ?_⟩
    split at h
    · next hbelow =>
      cases h
      exact .inl ⟨hbelow, rfl⟩
    · next hbelow =>
      obtain ⟨hcontent, h⟩ := require_bind_eq_ok_iff.1 h
      obtain ⟨s, hs, h⟩ := bind_eq_ok_iff.1 h
      cases h
      exact .inr ⟨hbelow, hcontent, s, hs, rfl⟩
  · rintro ⟨hadmits, h⟩
    refine ⟨hadmits.mode, hadmits.blockSize, hadmits.inlineSize, hadmits.checkpoint, ?_⟩
    rcases h with ⟨hbelow, rfl⟩ | ⟨hbelow, hcontent, s, hs, rfl⟩
    · rw [if_pos (show ∀ last ∈ (c.visible q).head?, last.AllAbove (c.startOf q) from hbelow)]
      rfl
    · rw [if_neg (show ¬∀ last ∈ (c.visible q).head?, last.AllAbove (c.startOf q) from hbelow)]
      exact require_bind_eq_ok_iff.2 ⟨hcontent, bind_eq_ok_iff.2 ⟨s, hs, rfl⟩⟩

theorem Reachable.visible_wellMarked (h : c.Reachable) (q : FlowQuery) : WellMarked (c.visible q) :=
  h.wellMarked.suffix (visible_suffix c q)

/-- A range does not end before it starts, even if its end was brought back into range. -/
theorem startOf_le_stopOf (h : 0 ≤ q.blockSize) : c.startOf q ≤ c.stopOf q := by
  unfold stopOf
  split
  · exact Length.le_greatest _
  · have := (c.startOf q).lower
    have := (c.startOf q).upper
    simp only [Length.le_def, Length.units_add, Length.units_zero] at *
    omega

/-- No float that a question below all floats sees counts. -/
theorem not_counts_of_belowAll (h : c.Reachable) (hbelow : c.BelowAll q) :
    ∀ f ∈ c.visible q, ¬f.Counts q.area (c.linesOf q) := by
  have hmarks := h.visible_wellMarked q
  unfold BelowAll at hbelow
  cases hvisible : c.visible q with
  | nil => exact List.forall_mem_nil _
  | cons last rest =>
    rw [hvisible] at hmarks hbelow
    exact Clearing.not_counts_of_above hmarks (hbelow last rfl)

/-- The walk for a question is a plain scan of all floats that the question sees. -/
theorem walk_visible (hmarks : WellMarked (c.visible q)) (hsize : 0 ≤ q.blockSize) :
    Clearing.walk q.kind q.area (c.startOf q) (c.visible q) (c.clearingOf q) =
      (Clearing.scan q.area (c.linesOf q) (c.visible q) (c.clearingOf q)).map
        (·.cutAll (Clearing.cuts q.kind q.area (c.startOf q) (c.visible q))) :=
  Clearing.walk_eq_scan hmarks (startOf_le_stopOf hsize) fun _ => rfl

theorem linesOf_start_le_stop (h : 0 ≤ q.blockSize) :
    (c.linesOf q).start ≤ (c.linesOf q).stop := by
  unfold linesOf BandKind.lines
  split
  · exact le_refl _
  · exact startOf_le_stopOf h

/-- The edge that a plain scan leaves on a line side when it starts with the same content area as the
    walk. -/
def scannedEdge (c : FloatContext) (q : FlowQuery) (side : LineSide) : Length :=
  (innerEdges q.area (c.linesOf q) side (c.visible q)).foldl side.opposite.outer
    ((c.clearingOf q).edgeOn side)

theorem edge_succeeds_of_counts (hsize : 0 ≤ q.blockSize) (hruns : c.RunsBounded q) :
    ∀ f ∈ c.visible q, f.Counts q.area (c.linesOf q) →
      Succeeds (f.edge q.area f.side.opposite (c.linesOf q)) := by
  intro f hf hcounts
  exact f.edge_succeeds hcounts.1 (hruns f hf) (linesOf_start_le_stop hsize)

/-- Among floats, a question has the answer that a plain scan gives. -/
theorem Reachable.flowArea_eq_answer (h : c.Reachable) (hadmits : c.Admits q)
    (hcontent : q.content.mode = q.mode) (hruns : c.RunsBounded q) (hbelow : ¬c.BelowAll q) :
    ∃ t, c.flowArea q = .ok (c.answer q
        (t.cutAll (Clearing.cuts q.kind q.area (c.startOf q) (c.visible q)))) ∧
      t.blockEnd = c.stopOf q ∧ (c.clearingOf q).NarrowedTo t ∧
      ∀ side, t.edgeOn side = c.scannedEdge q side := by
  obtain ⟨t, ht, hend, hnarrowed, hedges⟩ := Clearing.scan_spec (c.clearingOf q)
    (edge_succeeds_of_counts hadmits.blockSize hruns)
  refine ⟨t, ?_, hend, hnarrowed, hedges⟩
  rw [flowArea_eq_ok_iff]
  refine ⟨hadmits, .inr ⟨hbelow, hcontent, _, ?_, rfl⟩⟩
  rw [walk_visible (h.visible_wellMarked q) hadmits.blockSize, ht]
  rfl

theorem inlineSizeOf_units (mode : WritingMode) (container : Size Length) :
    mode.inlineSizeOf container.units = (mode.inlineSizeOf container).units := by
  unfold WritingMode.inlineSizeOf
  split <;> rfl

/-- The line-right edge of a rectangle is its inline size away from the line-left one. -/
theorem lineEdge_right_sub_left (r : Logical.Rect Int) (container : Size Int) :
    r.lineEdge container .right - r.lineEdge container .left = r.inlineSize := by
  simp only [Logical.Rect.lineEdge, Logical.Rect.lineLeft, Logical.Rect.lineRight,
    Logical.Rect.inlineEnd]
  split <;> omega

theorem contentEdge_right_sub_left (hinline : c.InlineExact q) :
    (c.contentEdge q .right).units - (c.contentEdge q .left).units =
      q.content.inlineSize.units := by
  have hsize := lineEdge_right_sub_left q.content.units q.container.units
  rw [hinline.edge .left, hinline.edge .right]
  change _ = q.content.inlineSize.units at hsize
  omega

/-- The walk starts with the edges of the content area, unless it would end before it starts. -/
theorem clearingOf_eq (c : FloatContext) (q : FlowQuery) :
    c.clearingOf q =
      { blockEnd := c.stopOf q
        left := c.contentEdge q .left
        right := if c.contentEdge q .right < c.contentEdge q .left then c.contentEdge q .left
          else c.contentEdge q .right
        hasFloats := false } := rfl

theorem clearingOf_edgeOn (hadmits : c.Admits q) (hinline : c.InlineExact q) (side : LineSide) :
    (c.clearingOf q).edgeOn side = c.contentEdge q side := by
  cases side with
  | left => rfl
  | right =>
    have hsize := contentEdge_right_sub_left hinline
    have hnonneg := hadmits.inlineSize
    have hle : ¬c.contentEdge q .right < c.contentEdge q .left := by
      simp only [Length.le_def, Length.lt_def, Length.units_zero] at *
      omega
    exact if_neg hle

-- ════════════════════════════════════════════════════════════════════════
-- The answer
-- ════════════════════════════════════════════════════════════════════════

/-- An answer gives the edges that all floats leave, and the range that was asked for. An area whose
    edges cross has no inline size, and keeps the edge at which its lines start. -/
structure Describes (c : FloatContext) (q : FlowQuery) (a : FlowArea) : Prop where
  mode : a.rect.mode = q.mode
  blockStart : a.rect.blockStart = q.blockStart
  blockSize : q.kind = .withinHeight →
    a.rect.blockSize = q.blockSize ∨ c.stopOf q = .greatest ∧ a.rect.blockSize = .greatest
  inlineSize : a.rect.inlineSize.units =
    max ((c.freeEdge q .right).units - (c.freeEdge q .left).units) 0
  left : q.mode.isLtr = true ∨ c.freeEdge q .left ≤ c.freeEdge q .right →
    c.offset.x.units + a.rect.units.lineEdge q.container.units .left = (c.freeEdge q .left).units
  right : q.mode.isLtr = false ∨ c.freeEdge q .left ≤ c.freeEdge q .right →
    c.offset.x.units + a.rect.units.lineEdge q.container.units .right = (c.freeEdge q .right).units
  hasFloats : a.hasFloats = true ↔
    c.contentEdge q .left < c.freeEdge q .left ∨ c.freeEdge q .right < c.contentEdge q .right
  isNegative : a.isNegative = true ↔ c.freeEdge q .right < c.freeEdge q .left

/-- The edges of an area that is not negative do not cross. -/
theorem Describes.isNegative_eq_false_iff (h : c.Describes q a) :
    a.isNegative = false ↔ c.freeEdge q .left ≤ c.freeEdge q .right := by
  rw [← not_lt, ← h.isNegative, Bool.not_eq_true]

/-- An area describes the free edges when its signed inline size is their distance and its inline
    start is the distance of the edge at which lines start from the edge of the container. -/
theorem describes_make {inlineStart inlineSize blockSize : Length} {hasFloats : Bool}
    (hsize : inlineSize.units = (c.freeEdge q .right).units - (c.freeEdge q .left).units)
    (hltr : q.mode.isLtr = true → inlineStart.units = (c.freeEdge q .left).units - c.offset.x.units)
    (hrtl : q.mode.isLtr = false → inlineStart.units =
      c.offset.x.units - (c.freeEdge q .right).units + (q.mode.inlineSizeOf q.container).units)
    (hblock : q.kind = .withinHeight →
      blockSize = q.blockSize ∨ c.stopOf q = .greatest ∧ blockSize = .greatest)
    (hfloats : hasFloats = true ↔ c.contentEdge q .left < c.freeEdge q .left ∨
      c.freeEdge q .right < c.contentEdge q .right) :
    c.Describes q
      (.make q.mode inlineStart q.blockStart inlineSize blockSize hasFloats) := by
  have hnegative : inlineSize < 0 ↔ c.freeEdge q .right < c.freeEdge q .left := by
    simp only [Length.lt_def, Length.units_zero]
    omega
  have hpositive : (max inlineSize 0).units =
      max ((c.freeEdge q .right).units - (c.freeEdge q .left).units) 0 := by
    rw [Length.units_max, hsize, Length.units_zero]
  have hcontainer := inlineSizeOf_units q.mode q.container
  refine ⟨rfl, rfl, hblock, hpositive, ?_, ?_, hfloats, decide_eq_true_iff.trans hnegative⟩
  · intro hedge
    simp only [FlowArea.make, Logical.Rect.units, Logical.Rect.lineEdge, Logical.Rect.lineLeft,
      Logical.Rect.inlineEnd, hpositive, hcontainer]
    cases hmode : q.mode.isLtr with
    | true =>
      have hstart := hltr hmode
      simp only [if_true]
      omega
    | false =>
      have hstart := hrtl hmode
      simp only [hmode, Bool.false_eq_true, if_false, false_or, Length.le_def] at hedge ⊢
      omega
  · intro hedge
    simp only [FlowArea.make, Logical.Rect.units, Logical.Rect.lineEdge, Logical.Rect.lineRight,
      Logical.Rect.inlineEnd, hpositive, hcontainer]
    cases hmode : q.mode.isLtr with
    | true =>
      have hstart := hltr hmode
      simp only [hmode, Bool.true_eq_false, if_true, false_or, Length.le_def] at hedge ⊢
      omega
    | false =>
      have hstart := hrtl hmode
      simp only [Bool.false_eq_true, if_false]
      omega

theorem freeEdge_of_belowAll (h : c.Reachable) (hbelow : c.BelowAll q) (side : LineSide) :
    c.freeEdge q side = c.contentEdge q side := by
  rw [freeEdge, innerEdges_eq_nil fun f hf _ => not_counts_of_belowAll h hbelow f hf,
    List.foldl_nil]

/-- The content area itself describes the free edges below all floats. -/
theorem describes_content (h : c.Reachable) (hcontent : q.content.mode = q.mode)
    (hinline : c.InlineExact q) (hbelow : c.BelowAll q) :
    c.Describes q (.make q.mode q.content.inlineStart q.blockStart q.content.inlineSize q.blockSize
      false) := by
  have hfree := freeEdge_of_belowAll h hbelow
  have hsize := contentEdge_right_sub_left hinline
  have hcontainer := inlineSizeOf_units q.mode q.container
  apply describes_make
  · rw [hfree, hfree, hsize]
  · intro hmode
    have hleft := hinline.edge .left
    simp only [Logical.Rect.lineEdge, Logical.Rect.lineLeft, Logical.Rect.units, hcontent, hmode,
      if_true] at hleft
    rw [hfree]
    omega
  · intro hmode
    have hright := hinline.edge .right
    simp only [Logical.Rect.lineEdge, Logical.Rect.lineRight, Logical.Rect.units, hcontent, hmode,
      hcontainer, Bool.false_eq_true, if_false] at hright
    rw [hfree]
    omega
  · exact fun _ => .inl rfl
  · rw [hfree, hfree]
    simp only [Length.lt_def, Int.lt_irrefl, or_self, Bool.false_eq_true]

/-- The answer that describes a space with the free edges describes them. -/
theorem describes_answer (hadmits : c.Admits q) (hblock : c.BlockExact q)
    (hinline : c.InlineExact q) (hleft : s.left = c.freeEdge q .left)
    (hright : s.right = c.freeEdge q .right)
    (hend : q.kind = .withinHeight → s.blockEnd = c.stopOf q)
    (hnarrowed : (c.clearingOf q).NarrowedTo s) : c.Describes q (c.answer q s) := by
  have hstart : c.startOf q - c.offset.y = q.blockStart := by
    have := q.blockStart.lower
    have := q.blockStart.upper
    have := hblock.start
    apply Length.ext
    rw [Length.units_sub]
    omega
  have hcontentLeft : (c.clearingOf q).left = c.contentEdge q .left := rfl
  have hcontentRight : (c.clearingOf q).right = c.contentEdge q .right :=
    clearingOf_edgeOn hadmits hinline .right
  unfold answer
  rw [hstart]
  apply describes_make
  · rw [hleft, hright]
    exact hinline.size
  · intro hmode
    rw [if_pos hmode, hleft]
    exact hinline.ltr hmode
  · intro hmode
    rw [if_neg (by rw [hmode]; decide), hright]
    exact hinline.rtl hmode
  · intro hkind
    rw [hend hkind]
    by_cases hopen : c.stopOf q = .greatest
    · rw [if_pos hopen]
      exact .inr ⟨hopen, rfl⟩
    · left
      have hsize : q.blockSize ≠ .greatest := fun h => hopen (if_pos h)
      have hstop := hblock.stop hsize
      have := q.blockSize.lower
      have := q.blockSize.upper
      rw [if_neg hopen]
      apply Length.ext
      rw [Length.units_sub]
      omega
  · have hnone : (c.clearingOf q).hasFloats = false := rfl
    rw [hnarrowed.hasFloats, hnone, hcontentLeft, hcontentRight, hleft, hright]
    simp only [Bool.false_eq_true, false_or]

/-- A question whose preconditions hold has an answer, which gives the free edges. -/
theorem Reachable.exists_describes (h : c.Reachable) (hadmits : c.Admits q)
    (hcontent : q.content.mode = q.mode) (hblock : c.BlockExact q) (hinline : c.InlineExact q)
    (hruns : c.RunsBounded q) : ∃ a, c.flowArea q = .ok a ∧ c.Describes q a := by
  by_cases hbelow : c.BelowAll q
  · exact ⟨_, flowArea_eq_ok_iff.2 ⟨hadmits, .inl ⟨hbelow, rfl⟩⟩,
      describes_content h hcontent hinline hbelow⟩
  · obtain ⟨t, ht, hend, hnarrowed, hedges⟩ :=
      h.flowArea_eq_answer hadmits hcontent hruns hbelow
    have hfree : ∀ side, t.edgeOn side = c.freeEdge q side := fun side => by
      rw [hedges side, scannedEdge, clearingOf_edgeOn hadmits hinline, freeEdge]
    -- Cutting the range off leaves the edges alone, and a range of fixed height is not cut off.
    have huncut : q.kind = .withinHeight →
        (t.cutAll (Clearing.cuts q.kind q.area (c.startOf q) (c.visible q))).blockEnd =
          c.stopOf q := fun hkind => by rw [hkind]; exact hend
    exact ⟨_, ht, describes_answer hadmits hblock hinline (hfree .left) (hfree .right) huncut
      (hnarrowed.cutAll _)⟩

/-- A question for the space that the floats of `refilled` leave for a block of lines that run from
    right to left. -/
def besideRefilled : FlowQuery where
  mode := { WritingMode.horizontalTb with rtl := true }
  blockStart := 10
  blockSize := 20
  kind := .withinHeight
  area := .shapeOutside
  content := ⟨{ WritingMode.horizontalTb with rtl := true }, 20, 0, 180, 0⟩
  checkpoint := none
  container := ⟨200, 1000⟩

theorem refilled_runsBounded (q : FlowQuery) : refilled.RunsBounded q := by
  refine runsBounded_of_floats (fun f hf shape hshape => ?_) q
  have hnone : ∀ f ∈ refilled.floats, f.shape = none := by decide
  cases (hnone f hf).symm.trans hshape

/-- Every question with its preconditions has an answer, and every float that counts has an edge.
    The answer gives the edges that are left by all floats that the question sees and that cross its
    lines, so the floats that the walk never comes to do not matter. -/
theorem Reachable.flowArea_describes (h : c.Reachable) (hadmits : c.Admits q)
    (hcontent : q.content.mode = q.mode) (hblock : c.BlockExact q) (hinline : c.InlineExact q)
    (hruns : c.RunsBounded q) :
    (∀ f ∈ c.visible q, f.Counts q.area (c.linesOf q) →
        Succeeds (f.edge q.area f.side.opposite (c.linesOf q))) ∧
      ∃ a, c.flowArea q = .ok a ∧ c.Describes q a :=
  ⟨edge_succeeds_of_counts hadmits.blockSize hruns,
    h.exists_describes hadmits hcontent hblock hinline hruns⟩

theorem refilled_flowArea_describes :
    refilled.Reachable ∧ refilled.freeEdge besideRefilled .left = 70 ∧
      refilled.freeEdge besideRefilled .right = 150 ∧
      ∃ a, refilled.flowArea besideRefilled = .ok a ∧ refilled.Describes besideRefilled a := by
  have hadmits : refilled.Admits besideRefilled := ⟨by decide, by decide, by decide, by decide⟩
  have hblock : refilled.BlockExact besideRefilled := ⟨rfl, fun _ => rfl⟩
  have hinline : refilled.InlineExact besideRefilled :=
    ⟨fun side => by cases side <;> rfl, rfl, fun _ => rfl, fun _ => rfl⟩
  have hruns := refilled_runsBounded besideRefilled
  exact ⟨refilled_reachable, rfl, rfl,
    (refilled_reachable.flowArea_describes hadmits rfl hblock hinline hruns).2⟩

end FloatContext

end FloatLayout
