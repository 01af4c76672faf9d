import FloatLayout.Proofs.Clearance
import FloatLayout.Proofs.DamageHistory
import FloatLayout.Proofs.Mirror
import FloatLayout.Proofs.MovedPlacement

/-!
# Moving the containing block

Moving the containing block moves the origin and nothing else. What is asked, placed or damaged in
the moved block is what would have been asked, placed or damaged in the old one, moved as far, and
an answer comes back by the same way.

## Main definitions

- `FlowQuery.moved`, `FlowArea.moved`: a question with its range and its content area moved, and an
  answer with its area moved.
- `FlowQuery.MovesExactly`, `FloatContext.FlowExact`: no sum around a question came back into the
  range of lengths.
- `FloatContext.flowArea_translate`, `FloatContext.Reachable.clear_translate`,
  `FloatContext.intersectsDamage_translate`: what a context answers once its block has moved.
- `FloatContext.Reachable.translate_moves`: all that a moved block changes.
-/

namespace FloatLayout

/-- A question with its range and its content area moved towards line-right and block-end. -/
def FlowQuery.moved (q : FlowQuery) (dx dy : Length) : FlowQuery :=
  { q with
    blockStart := q.blockStart + dy
    content := { q.content with inlineStart := q.mode.along q.content.inlineStart dx } }

/-- An answer with its area moved towards line-right and block-end. -/
def FlowArea.moved (a : FlowArea) (dx dy : Length) : FlowArea :=
  { a with rect := a.rect.moved dx dy }

/-- The moved range and content area of a question are within the range of lengths. -/
structure FlowQuery.MovesExactly (q : FlowQuery) (dx dy : Length) : Prop where
  blockStart : (q.blockStart + dy).units = q.blockStart.units + dy.units
  inlineStart : (q.mode.along q.content.inlineStart dx).units =
    q.mode.along q.content.inlineStart.units dx.units

namespace FloatContext

variable {c : FloatContext} {q : FlowQuery} {dx dy position : Length} {clear : ClearSide}
  {placedOnly : Bool} {range : Band}

/-- The block start of a question, the edges of its content area and the start of its answer were
    not brought back into the range of lengths. -/
structure FlowExact (c : FloatContext) (q : FlowQuery) : Prop where
  start : (c.startOf q).units = q.blockStart.units + c.offset.y.units
  content : ∀ side, (q.content.lineEdge q.container side).units =
    q.content.units.lineEdge q.container.units side
  answer : ∀ s, Clearing.walk q.kind q.area (c.startOf q) (c.visible q) (c.clearingOf q) = .ok s →
    (c.answer q s).rect.inlineStart.units =
      if q.mode.isLtr then s.left.units - c.offset.x.units
      else c.offset.x.units - s.right.units + (q.mode.inlineSizeOf q.container).units

-- ════════════════════════════════════════════════════════════════════════
-- Questions
-- ════════════════════════════════════════════════════════════════════════

theorem startOf_translate (hoffset : c.offset.ShiftExact dx dy) (hq : q.MovesExactly dx dy) :
    (c.translate dx dy).startOf q = c.startOf (q.moved dx dy) :=
  Length.add_add_eq hq.blockStart hoffset.y

theorem belowAll_translate (hoffset : c.offset.ShiftExact dx dy) (hq : q.MovesExactly dx dy) :
    (c.translate dx dy).BelowAll q ↔ c.BelowAll (q.moved dx dy) := by
  rw [BelowAll, startOf_translate hoffset hq]
  exact Iff.rfl

theorem contentEdge_translate (hoffset : c.offset.ShiftExact dx dy) (hq : q.MovesExactly dx dy)
    (hcontent : q.content.mode = q.mode) (hexact : (c.translate dx dy).FlowExact q)
    (hexact' : c.FlowExact (q.moved dx dy)) (side : LineSide) :
    (c.translate dx dy).contentEdge q side = c.contentEdge (q.moved dx dy) side := by
  have hmoved : (q.moved dx dy).content.units = q.content.units.moved dx.units 0 := by
    have hinline := hq.inlineStart
    rw [← hcontent] at hinline
    simp only [FlowQuery.moved, Logical.Rect.units, Logical.Rect.moved, Int.add_zero, hinline,
      ← hcontent]
  have hedge : ((q.moved dx dy).content.lineEdge q.container side).units =
      (q.content.lineEdge q.container side).units + dx.units := by
    rw [hexact.content side, ← lineEdge_moved _ _ _ 0, ← hmoved]
    exact hexact'.content side
  have hx := hoffset.x
  apply Length.ext
  change (c.offset.x + dx + q.content.lineEdge q.container side).units =
    (c.offset.x + (q.moved dx dy).content.lineEdge q.container side).units
  rw [Length.units_add, hx, Length.units_add, hedge]
  omega

theorem clearingOf_translate (hoffset : c.offset.ShiftExact dx dy) (hq : q.MovesExactly dx dy)
    (hcontent : q.content.mode = q.mode) (hexact : (c.translate dx dy).FlowExact q)
    (hexact' : c.FlowExact (q.moved dx dy)) :
    (c.translate dx dy).clearingOf q = c.clearingOf (q.moved dx dy) := by
  have hstop : (c.translate dx dy).stopOf q = c.stopOf (q.moved dx dy) := by
    rw [stopOf, startOf_translate hoffset hq]
    rfl
  rw [clearingOf_eq, clearingOf_eq, hstop,
    contentEdge_translate hoffset hq hcontent hexact hexact',
    contentEdge_translate hoffset hq hcontent hexact hexact']

theorem inlineStart_answer_translate {s : Clearing} (hoffset : c.offset.ShiftExact dx dy)
    (hanswer : ((c.translate dx dy).answer q s).rect.inlineStart.units =
      if q.mode.isLtr then s.left.units - (c.offset.x + dx).units
      else (c.offset.x + dx).units - s.right.units + (q.mode.inlineSizeOf q.container).units)
    (hanswer' : (c.answer (q.moved dx dy) s).rect.inlineStart.units =
      if q.mode.isLtr then s.left.units - c.offset.x.units
      else c.offset.x.units - s.right.units + (q.mode.inlineSizeOf q.container).units) :
    ((c.translate dx dy).answer q s).rect.inlineStart =
      q.mode.along (c.answer (q.moved dx dy) s).rect.inlineStart (-dx) := by
  have hlower := ((c.translate dx dy).answer q s).rect.inlineStart.lower
  have hupper := ((c.translate dx dy).answer q s).rect.inlineStart.upper
  rw [hoffset.x] at hanswer
  apply Length.ext
  cases hltr : q.mode.isLtr with
  | true =>
    rw [if_pos hltr] at hanswer hanswer'
    rw [WritingMode.along, if_pos hltr, Length.units_add, Length.units_neg, hanswer']
    omega
  | false =>
    have hrtl : ¬q.mode.isLtr = true := by simp [hltr]
    rw [if_neg hrtl] at hanswer hanswer'
    rw [WritingMode.along, if_neg hrtl, Length.units_sub, Length.units_neg, hanswer']
    omega

theorem blockStart_answer_translate (hoffset : c.offset.ShiftExact dx dy)
    (hq : q.MovesExactly dx dy)
    (hstart : (c.startOf (q.moved dx dy)).units =
      (q.moved dx dy).blockStart.units + c.offset.y.units) :
    (c.translate dx dy).startOf q - (c.offset.y + dy) =
      c.startOf (q.moved dx dy) - c.offset.y + -dy := by
  have hmoved : (q.moved dx dy).blockStart.units = q.blockStart.units + dy.units := hq.blockStart
  have hy := hoffset.y
  have := q.blockStart.lower
  have := q.blockStart.upper
  have := (q.moved dx dy).blockStart.lower
  have := (q.moved dx dy).blockStart.upper
  rw [startOf_translate hoffset hq]
  simp only [Length.ext_iff, Length.units_sub, Length.units_add, Length.units_neg] at *
  omega

/-- What a walk leaves is answered in the moved block as in the old one, moved back. -/
theorem answer_translate {s : Clearing} (hoffset : c.offset.ShiftExact dx dy)
    (hq : q.MovesExactly dx dy) (hexact : (c.translate dx dy).FlowExact q)
    (hexact' : c.FlowExact (q.moved dx dy))
    (hs : Clearing.walk q.kind q.area (c.startOf (q.moved dx dy)) (c.visible q)
      (c.clearingOf (q.moved dx dy)) = .ok s)
    (hclearing : (c.translate dx dy).clearingOf q = c.clearingOf (q.moved dx dy)) :
    (c.translate dx dy).answer q s = (c.answer (q.moved dx dy) s).moved (-dx) (-dy) := by
  have hstart := startOf_translate hoffset hq
  have hanswer := hexact.answer s (by rw [hstart, hclearing]; exact hs)
  have hinline := inlineStart_answer_translate hoffset hanswer (hexact'.answer s hs)
  have hblock := blockStart_answer_translate hoffset hq hexact'.start
  change FlowArea.make q.mode ((c.translate dx dy).answer q s).rect.inlineStart
    ((c.translate dx dy).startOf q - (c.offset.y + dy)) (s.right - s.left)
    (if s.blockEnd = .greatest then .greatest else s.blockEnd - (c.translate dx dy).startOf q)
    s.hasFloats = _
  rw [hinline, hblock, hstart]
  rfl

theorem make_moved (hq : q.MovesExactly dx dy) (inlineSize blockSize : Length) (hasFloats : Bool) :
    (FlowArea.make q.mode (q.moved dx dy).content.inlineStart (q.moved dx dy).blockStart inlineSize
        blockSize hasFloats).moved (-dx) (-dy) =
      .make q.mode q.content.inlineStart q.blockStart inlineSize blockSize hasFloats := by
  change FlowArea.make q.mode (q.mode.along (q.mode.along q.content.inlineStart dx) (-dx))
    (q.blockStart + dy + -dy) inlineSize blockSize hasFloats = _
  rw [WritingMode.along_along_neg hq.inlineStart, Length.add_add_neg hq.blockStart]

/-- A question in the moved block has the answer that the moved question had before, moved back. -/
theorem flowArea_translate (hoffset : c.offset.ShiftExact dx dy) (hq : q.MovesExactly dx dy)
    (hexact : ¬c.BelowAll (q.moved dx dy) → q.content.mode = q.mode →
      (c.translate dx dy).FlowExact q ∧ c.FlowExact (q.moved dx dy)) :
    (c.translate dx dy).flowArea q =
      (c.flowArea (q.moved dx dy)).map (·.moved (-dx) (-dy)) := by
  refine bind_eq_map_bind fun _ => bind_eq_map_bind fun _ => bind_eq_map_bind fun _ =>
    bind_eq_map_bind fun _ => ?_
  by_cases hbelow : c.BelowAll (q.moved dx dy)
  · have hbelow' := (belowAll_translate hoffset hq).2 hbelow
    refine (if_pos hbelow').trans (Eq.trans ?_ (congrArg _ (if_pos hbelow).symm))
    exact congrArg Except.ok (make_moved hq _ _ _).symm
  · have hbelow' := mt (belowAll_translate hoffset hq).1 hbelow
    refine (if_neg hbelow').trans (Eq.trans ?_ (congrArg _ (if_neg hbelow).symm))
    by_cases hcontent : q.content.mode = q.mode
    · obtain ⟨hflow, hflow'⟩ := hexact hbelow hcontent
      have hclearing := clearingOf_translate hoffset hq hcontent hflow hflow'
      refine bind_eq_map_bind fun _ => ?_
      rw [startOf_translate hoffset hq, hclearing]
      change Clearing.walk q.kind q.area (c.startOf (q.moved dx dy)) (c.visible q)
          (c.clearingOf (q.moved dx dy)) >>= _ =
        Except.map _ (Clearing.walk q.kind q.area (c.startOf (q.moved dx dy)) (c.visible q)
          (c.clearingOf (q.moved dx dy)) >>= _)
      cases hwalk : Clearing.walk q.kind q.area (c.startOf (q.moved dx dy)) (c.visible q)
          (c.clearingOf (q.moved dx dy)) with
      | error fault => rfl
      | ok s =>
        exact congrArg Except.ok (answer_translate hoffset hq hflow hflow' hwalk hclearing)
    · have hmismatch : Logical.expectMode q.content.mode q.mode = .error .modeMismatch :=
        require_of_not hcontent
      change Logical.expectMode q.content.mode q.mode >>= _ =
        Except.map _ (Logical.expectMode q.content.mode q.mode >>= _)
      rw [hmismatch]
      rfl

-- ════════════════════════════════════════════════════════════════════════
-- Clearance and damage
-- ════════════════════════════════════════════════════════════════════════

/-- Clearing floats in the moved block ends where clearing them from the moved position did before,
    moved back. -/
theorem Reachable.clear_translate (h : c.Reachable) (hoffset : c.offset.ShiftExact dx dy)
    (hopen : placedOnly = true ∨ c.clearContinues clear = false)
    (hposition : (position + dy).units = position.units + dy.units)
    (hexact : c.ClearExact (position + dy) clear) :
    (c.translate dx dy).clear position clear placedOnly =
      c.clear (position + dy) clear placedOnly - dy := by
  have htranslated : (c.translate dx dy).Reachable := h.changed (.translate dx dy)
  have hopen' : placedOnly = true ∨ (c.translate dx dy).clearContinues clear = false := hopen
  by_cases hfloats : c.floats = []
  · rw [clear_of_nil hopen hfloats, clear_of_nil hopen' hfloats]
    have := position.lower
    have := position.upper
    simp only [Length.ext_iff, Length.units_sub, hposition]
    omega
  · have hend : (c.translate dx dy).clearedEnd position clear =
        c.clearedEnd (position + dy) clear :=
      congrArg (List.foldl max · _) (Length.add_add_eq hposition hoffset.y)
    have hstop := hexact.stop hfloats
    have hy := hoffset.y
    rw [h.clear_eq hopen hfloats, htranslated.clear_eq hopen' hfloats, hend]
    change c.clearedEnd (position + dy) clear - (c.offset.y + dy) = _
    rw [Length.ext_iff, Length.units_sub, Length.units_sub _ dy, hstop, hy]
    omega

theorem intersectsDamage_translate (hoffset : c.offset.ShiftExact dx dy)
    (hrange : range.MovesExactly dy) :
    (c.translate dx dy).intersectsDamage range = c.intersectsDamage (range.moved dy) := by
  have hband : (c.translate dx dy).bandOf range = c.bandOf (range.moved dy) := by
    simp only [bandOf, Band.moved]
    exact congrArg₂ Band.mk (Length.add_add_eq hrange.start hoffset.y)
      (Length.add_add_eq hrange.stop hoffset.y)
  rw [intersectsDamage, hband]
  rfl

/-- Moving the containing block only moves its origin. A question for a flow area has the answer
    that the moved question had before, moved back. Clearance ends, and damage is found, where they
    were for the moved position and the moved range. A box without a shape image gets the record
    that it would have got at the moved margin box, and where a polygon without area has a block
    range out of the range of lengths, that range, which no question for a flow area reads, is all
    that differs. -/
theorem Reachable.translate_moves (h : c.Reachable) (hoffset : c.offset.ShiftExact dx dy) :
    (∀ q : FlowQuery, q.MovesExactly dx dy →
      (¬c.BelowAll (q.moved dx dy) → q.content.mode = q.mode →
        (c.translate dx dy).FlowExact q ∧ c.FlowExact (q.moved dx dy)) →
      (c.translate dx dy).flowArea q =
        (c.flowArea (q.moved dx dy)).map (·.moved (-dx) (-dy))) ∧
    (∀ position side placedOnly, placedOnly = true ∨ c.clearContinues side = false →
      (position + dy).units = position.units + dy.units → c.ClearExact (position + dy) side →
      (c.translate dx dy).clear position side placedOnly =
        c.clear (position + dy) side placedOnly - dy) ∧
    (∀ range : Band, range.MovesExactly dy →
      (c.translate dx dy).intersectsDamage range = c.intersectsDamage (range.moved dy)) ∧
    ∀ (box : FloatBox) (r : Logical.Rect Length) (mode : WritingMode) (container : Size Length),
      (∀ threshold, box.shapeOutside ≠ .image threshold) →
      (r.moved dx dy).units = r.units.moved dx.units dy.units → box.LandsExactly r container →
      box.LandsExactly (r.moved dx dy) container →
      let later := (c.translate dx dy).add box r mode container
      let earlier := (c.add box (r.moved dx dy) mode container).map (·.translate dx dy)
      ((∀ s, Shape.ofStyle box r r.mode container = .ok (.ok (some s)) →
          s.IdleExact (c.offset.y + dy)) →
        (∀ s, Shape.ofStyle box (r.moved dx dy) r.mode container = .ok (.ok (some s)) →
          s.IdleExact c.offset.y) → later = earlier) ∧
        later.map settled = earlier.map settled ∧
        ∀ (d : FloatContext) (q : FlowQuery), d.settled.flowArea q = d.flowArea q := by
  refine ⟨fun q => flowArea_translate hoffset, fun position side placedOnly hopen hposition =>
    h.clear_translate hoffset hopen hposition, fun range => intersectsDamage_translate hoffset, ?_⟩
  intro box r mode container himage hmoved hlands hlands' later earlier
  exact ⟨add_moved hoffset himage hmoved hlands hlands',
    settled_add_moved hoffset himage hmoved hlands hlands', flowArea_settled⟩

/-- The question that becomes `besideAlley` when it is moved by 7 and 20. -/
def besideMovedAlley : FlowQuery :=
  { besideAlley with blockStart := 50, content := ⟨.horizontalTb, -7, 0, 300, 0⟩ }

/-- The record of `framedTriangle` behind the floats of `alley`. -/
def alleyTriangle : PlacedFloat :=
  ⟨1, .right, ⟨32, 60, 100, 80⟩, 110, 140,
    some (.polygon ⟨[⟨45, 67⟩, ⟨105, 87⟩, ⟨75, 107⟩], false, 67, 107⟩)⟩

theorem alley_translate_moves :
    let c := alley.translate 7 20
    c.flowArea besideMovedAlley = .ok ⟨⟨.horizontalTb, 43, 50, 201, 30⟩, true, false⟩ ∧
      c.clear 0 .both false = 80 ∧ c.intersectsDamage ⟨0, 10⟩ = false ∧
      c.add framedTriangle ⟨.horizontalTb, 20, 30, 100, 80⟩ .horizontalTb ⟨300, 1000⟩ =
        .ok { c with floats := alleyTriangle :: c.floats } := by
  intro c
  have hoffset : alley.offset.ShiftExact 7 20 := ⟨rfl, rfl⟩
  obtain ⟨hflow, hclear, hdamage, hadd⟩ := alley_reachable.translate_moves hoffset
  have hbeside : besideMovedAlley.moved 7 20 = besideAlley := rfl
  have hcontent : ∀ q : FlowQuery, q = besideAlley ∨ q = besideMovedAlley → ∀ side,
      (q.content.lineEdge q.container side).units =
        q.content.units.lineEdge q.container.units side := by
    rintro q (rfl | rfl) side <;> cases side <;> rfl
  have hexact : (alley.translate 7 20).FlowExact besideMovedAlley ∧
      alley.FlowExact besideAlley := by
    have hwalk : Clearing.walk .fromPoint .shapeOutside (alley.startOf besideAlley)
        (alley.visible besideAlley) (alley.clearingOf besideAlley) =
          .ok ⟨110, 55, 256, true⟩ := rfl
    refine ⟨⟨rfl, hcontent _ (.inr rfl), fun s hs => ?_⟩,
      ⟨rfl, hcontent _ (.inl rfl), fun s hs => ?_⟩⟩
    · cases hwalk.symm.trans hs
      rfl
    · cases hwalk.symm.trans hs
      rfl
  refine ⟨?_, ?_, ?_, ?_⟩
  · rw [hflow besideMovedAlley ⟨rfl, rfl⟩ fun _ _ => hexact]
    rfl
  · rw [hclear 0 .both false (.inr rfl) rfl ⟨fun _ => rfl, fun _ => rfl⟩]
    rfl
  · rw [hdamage ⟨0, 10⟩ ⟨rfl, rfl⟩]
    rfl
  · have hlands : ∀ r : Logical.Rect Length,
        r = ⟨.horizontalTb, 20, 30, 100, 80⟩ ∨ r = ⟨.horizontalTb, 27, 50, 100, 80⟩ →
          framedTriangle.LandsExactly r ⟨300, 1000⟩ := by
      rintro r (rfl | rfl)
      all_goals
        refine ⟨rfl, fun _ => ⟨rfl, fun v hv => ?_, fun v hv => ?_⟩⟩
        all_goals
          simp only [List.mem_cons, List.not_mem_nil, or_false] at hv
          rcases hv with rfl | rfl | rfl <;> rfl
    obtain ⟨hsame, -⟩ := hadd framedTriangle _ .horizontalTb _ nofun rfl (hlands _ (.inl rfl))
      (hlands _ (.inr rfl))
    refine (hsame (fun s hs => ?_) (fun s hs => ?_)).trans rfl
    · cases (Shape.ofStyle_shape rfl _).symm.trans hs
      exact nofun
    · cases (Shape.ofStyle_shape rfl _).symm.trans hs
      exact nofun

end FloatContext

end FloatLayout
