import FloatLayout.Proofs.Checkpoint
import FloatLayout.Proofs.DamageRanges

/-!
# Damage over a run

What a float context holds damaged is what its changes damaged, each range at the place where the
containing block was at that time. Moving the containing block, placing and removing floats and
going back to a checkpoint leave the damage alone.

## Main definitions

- `Band.moved`: a range with its place in the context. `Band.movedPositions` are its true positions.
- `FloatContext.Damages`: a run adds a range to the damage.
- `FloatContext.damage_after`: the damage at the end of a run.
- `FloatContext.intersectsDamage_after`: what the damage answers after a run.

## Design notes

Sums that leave the range of lengths come back to its end, and that brings positions together and
never apart. A range that shares a position with another one therefore does so still when both are
held within the range of lengths.
-/

namespace FloatLayout

namespace Band

variable {r q : Band} {dy dy' : Length} {x : ℝ}

/-- A range in the coordinates of a context whose containing block starts at `dy`. -/
def moved (r : Band) (dy : Length) : Band := ⟨r.start + dy, r.stop + dy⟩

/-- The positions that a moved range would hold if there were lengths of any size. -/
def movedPositions (r : Band) (dy : Length) : Set ℝ :=
  Set.Icc ((r.start.units + dy.units : ℤ) : ℝ) ((r.stop.units + dy.units : ℤ) : ℝ)

/-- Both ends of a moved range are lengths. -/
structure MovesExactly (r : Band) (dy : Length) : Prop where
  start : (r.start + dy).units = r.start.units + dy.units
  stop : (r.stop + dy).units = r.stop.units + dy.units

theorem moved_start_le_stop (h : r.start ≤ r.stop) (dy : Length) :
    (r.moved dy).start ≤ (r.moved dy).stop := by
  simp only [moved, Length.le_def, Length.units_add] at *
  omega

theorem MovesExactly.positions_eq (h : r.MovesExactly dy) :
    (r.moved dy).positions = r.movedPositions dy := by
  show Set.Icc _ _ = Set.Icc _ _
  rw [moved, h.start, h.stop]

theorem movedPositions_inter_nonempty_iff (hr : r.start ≤ r.stop) (hq : q.start ≤ q.stop) :
    (r.movedPositions dy ∩ q.movedPositions dy').Nonempty ↔
      r.start.units + dy.units ≤ q.stop.units + dy'.units ∧
        q.start.units + dy'.units ≤ r.stop.units + dy.units := by
  rw [Length.le_def] at hr hq
  rw [movedPositions, movedPositions, Set.Icc_inter_Icc, Set.nonempty_Icc, sup_le_iff, le_inf_iff,
    le_inf_iff]
  simp only [Int.cast_le]
  omega

/-- Ranges that share a position share one within the range of lengths. -/
theorem positions_moved_inter_nonempty (hr : r.start ≤ r.stop) (hq : q.start ≤ q.stop)
    (h : (r.movedPositions dy ∩ q.movedPositions dy').Nonempty) :
    ((r.moved dy).positions ∩ (q.moved dy').positions).Nonempty := by
  obtain ⟨hbefore, hafter⟩ := (movedPositions_inter_nonempty_iff hr hq).1 h
  rw [positions_inter_nonempty_iff (moved_start_le_stop hr dy) (moved_start_le_stop hq dy')]
  simp only [moved, Length.le_def, Length.units_add]
  omega

end Band

/-- The range that a change adds to the damage. -/
def Operation.damage? : Operation → Option Band
  | addDamage range => some range
  | _ => none

variable {c : FloatContext} {operation : Operation} {operations rest : List Operation}
  {range query : Band} {dy : Length} {x : ℝ}

-- ════════════════════════════════════════════════════════════════════════
-- A single change
-- ════════════════════════════════════════════════════════════════════════

theorem Operation.damage?_eq_some_iff :
    operation.damage? = some range ↔ operation = .addDamage range := by
  cases operation <;> simp [damage?]

/-- A change that names no range leaves the damage alone. -/
theorem Operation.apply_damage_of_none (c : FloatContext) (h : operation.damage? = none) :
    (operation.apply c).1.damage = c.damage := by
  cases operation with
  | addDamage range => cases h
  | add box marginRect mode container =>
    rcases apply_add_eq_or c box marginRect mode container with h | ⟨side, f, -, h⟩ <;> rw [h]
  | translate dx dy => rfl
  | removeTrailing ids => rfl
  | rewind checkpoint => rfl
  | mark m => rfl

/-- A range that does not end before it starts is added, wherever the containing block is. -/
theorem Operation.apply_addDamage (c : FloatContext) (h : range.start ≤ range.stop) :
    (Operation.addDamage range).apply c =
      ({ c with damage := ⟨Damage.insert (range.moved c.offset.y) c.damage.ranges⟩ }, .ok ()) := by
  have hadd := c.damage.add_eq_ok (Band.moved_start_le_stop h c.offset.y)
  have hdamage : c.addDamage range =
      .ok { c with damage := ⟨Damage.insert (range.moved c.offset.y) c.damage.ranges⟩ } :=
    bind_eq_ok_iff.2 ⟨_, hadd, rfl⟩
  simp only [apply, hdamage]

namespace FloatContext

-- ════════════════════════════════════════════════════════════════════════
-- Runs
-- ════════════════════════════════════════════════════════════════════════

/-- At some moment of a run, with the containing block at `dy`, a change adds `range` to the
    damage. -/
def Damages (c : FloatContext) (operations : List Operation) (range : Band) (dy : Length) : Prop :=
  ∃ earlier later, operations = earlier ++ .addDamage range :: later ∧
    (c.after earlier).offset.y = dy

theorem not_damages_nil : ¬c.Damages [] range dy := by
  rintro ⟨earlier, later, h, -⟩
  simp at h

theorem damages_cons_iff : c.Damages (operation :: rest) range dy ↔
    operation = .addDamage range ∧ c.offset.y = dy ∨
      (operation.apply c).1.Damages rest range dy := by
  constructor
  · rintro ⟨earlier, later, h, hdy⟩
    cases earlier with
    | nil =>
      cases h
      exact .inl ⟨rfl, hdy⟩
    | cons first earlier =>
      cases h
      exact .inr ⟨earlier, later, rfl, hdy⟩
  · rintro (⟨rfl, hdy⟩ | ⟨earlier, later, rfl, hdy⟩)
    · exact ⟨[], rest, rfl, hdy⟩
    · exact ⟨operation :: earlier, later, rfl, hdy⟩

theorem Damages.mem (h : c.Damages operations range dy) : .addDamage range ∈ operations := by
  obtain ⟨earlier, later, rfl, -⟩ := h
  exact List.mem_append_right _ List.mem_cons_self

theorem exists_damages_iff :
    (∃ range dy, c.Damages operations range dy) ↔ ∃ range, .addDamage range ∈ operations := by
  constructor
  · rintro ⟨range, dy, h⟩
    exact ⟨range, h.mem⟩
  · rintro ⟨range, h⟩
    obtain ⟨earlier, later, h⟩ := List.append_of_mem h
    exact ⟨range, _, earlier, later, h, rfl⟩

/-- After a run, damaged are the positions that were damaged before it and those of the ranges that
    it added. -/
theorem damage_after (hapart : c.damage.Apart)
    (hupright : ∀ range, .addDamage range ∈ operations → range.start ≤ range.stop) :
    (c.after operations).damage.Apart ∧
      ∀ x, x ∈ covered (c.after operations).damage.ranges ↔
        x ∈ covered c.damage.ranges ∨
          ∃ range dy, c.Damages operations range dy ∧ x ∈ (range.moved dy).positions := by
  induction operations generalizing c with
  | nil => exact ⟨hapart, fun x => by simp [after, not_damages_nil]⟩
  | cons operation rest ih =>
    have hrest := fun range h => hupright range (List.mem_cons_of_mem operation h)
    cases hdamage : operation.damage? with
    | none =>
      have hkeep := Operation.apply_damage_of_none c hdamage
      have hnone : ∀ range, operation ≠ .addDamage range := by
        rintro range rfl
        cases hdamage
      obtain ⟨hafter, hcovered⟩ := ih (hkeep ▸ hapart) hrest
      refine ⟨hafter, fun x => (hcovered x).trans ?_⟩
      simp only [damages_cons_iff, hkeep, hnone, false_and, false_or]
    | some range =>
      cases Operation.damage?_eq_some_iff.1 hdamage
      have hrange := hupright range List.mem_cons_self
      have happly := Operation.apply_addDamage c hrange
      have hinsert := hapart.insert (Band.moved_start_le_stop hrange c.offset.y)
      obtain ⟨hafter, hcovered⟩ := ih (c := ((Operation.addDamage range).apply c).1)
        (by rw [happly]; exact hinsert) hrest
      refine ⟨hafter, fun x => (hcovered x).trans ?_⟩
      rw [happly, Damage.covered_insert]
      simp only [damages_cons_iff, happly, Operation.addDamage.injEq]
      constructor
      · rintro ((hx | hx) | ⟨range', dy, h, hx⟩)
        · exact .inr ⟨range, _, .inl ⟨rfl, rfl⟩, hx⟩
        · exact .inl hx
        · exact .inr ⟨range', dy, .inr h, hx⟩
      · rintro (hx | ⟨range', dy, ⟨rfl, rfl⟩ | h, hx⟩)
        · exact .inl (.inr hx)
        · exact .inl (.inl hx)
        · exact .inr ⟨range', dy, h, hx⟩

/-- After a run of a new context, damaged are the positions of the ranges that the run added. -/
theorem mem_covered_after_iff (mode : WritingMode)
    (hupright : ∀ range, .addDamage range ∈ operations → range.start ≤ range.stop) :
    x ∈ covered ((FloatContext.new mode).after operations).damage.ranges ↔
      ∃ range dy, (FloatContext.new mode).Damages operations range dy ∧
        x ∈ (range.moved dy).positions := by
  have hnone : covered (FloatContext.new mode).damage.ranges = ∅ := covered_nil
  rw [(damage_after Damage.Apart.none hupright).2 x, hnone, Set.mem_empty_iff_false, false_or]

/-- After a run of a new context, a range overlaps the damage exactly if it shares a position, as
    far as there are lengths for it, with a range added during the run. -/
theorem intersectsDamage_after_iff (mode : WritingMode)
    (hupright : ∀ range, .addDamage range ∈ operations → range.start ≤ range.stop)
    (hquery : query.start ≤ query.stop) :
    let d := (FloatContext.new mode).after operations
    d.intersectsDamage query = true ↔
      ∃ range dy, (FloatContext.new mode).Damages operations range dy ∧
        ((range.moved dy).positions ∩ (query.moved d.offset.y).positions).Nonempty := by
  intro d
  have hapart : d.damage.Apart := (damage_after Damage.Apart.none hupright).1
  have hband := Band.moved_start_le_stop hquery d.offset.y
  refine (hapart.intersects_iff hband).trans ?_
  constructor
  · rintro ⟨x, hx, hx'⟩
    obtain ⟨range, dy, h, hx⟩ := (mem_covered_after_iff mode hupright).1 hx
    exact ⟨range, dy, h, x, hx, hx'⟩
  · rintro ⟨range, dy, h, x, hx, hx'⟩
    exact ⟨x, (mem_covered_after_iff mode hupright).2 ⟨range, dy, h, hx⟩, hx'⟩

/-- After a run of a new context there is damage exactly if the run added some. -/
theorem isEmpty_damage_after_iff (mode : WritingMode)
    (hupright : ∀ range, .addDamage range ∈ operations → range.start ≤ range.stop) :
    ((FloatContext.new mode).after operations).damage.isEmpty = false ↔
      ∃ range, .addDamage range ∈ operations := by
  rw [(damage_after Damage.Apart.none hupright).1.isEmpty_eq_false_iff, ← exists_damages_iff]
  constructor
  · rintro ⟨x, hx⟩
    obtain ⟨range, dy, h, -⟩ := (mem_covered_after_iff mode hupright).1 hx
    exact ⟨range, dy, h⟩
  · rintro ⟨range, dy, h⟩
    have hmoved := Band.moved_start_le_stop (hupright range h.mem) dy
    have hstart := Band.start_mem_positions hmoved
    exact ⟨_, (mem_covered_after_iff mode hupright).2 ⟨range, dy, h, hstart⟩⟩

/-- A run that damages ranges of two containing blocks, goes back to the time before both, and
    fails to go back to one with more floats than there are. -/
def damaging : List Operation :=
  let place : Operation :=
    .add (.plain 0 .left) ⟨.horizontalTb, 0, 0, 10, 20⟩ .horizontalTb ⟨200, 1000⟩
  [.translate 5 100, .addDamage ⟨0, 10⟩, place, .translate 0 40, .mark .splitLeft,
    .addDamage ⟨-20, 30⟩, .removeTrailing [0], .rewind ⟨⟨0, 0⟩, {}, 3⟩]

/-- After any run of a new context, a range that shares a position with a range added to the damage
    during the run overlaps the damage, even where sums leave the range of lengths. If none does,
    the damage overlaps no other range. There is damage exactly if some was added. -/
theorem intersectsDamage_after (mode : WritingMode)
    (hupright : ∀ range, .addDamage range ∈ operations → range.start ≤ range.stop)
    (hquery : query.start ≤ query.stop) :
    let c := FloatContext.new mode
    let d := c.after operations
    let Overlaps (range : Band) (dy : Length) : Prop :=
      (range.movedPositions dy ∩ query.movedPositions d.offset.y).Nonempty
    ((∃ range dy, c.Damages operations range dy ∧ Overlaps range dy) →
        d.intersectsDamage query = true) ∧
      ((∀ range dy, c.Damages operations range dy → range.MovesExactly dy) →
        query.MovesExactly d.offset.y → d.intersectsDamage query = true →
          ∃ range dy, c.Damages operations range dy ∧ Overlaps range dy) ∧
      (d.damage.isEmpty = false ↔ ∃ range, .addDamage range ∈ operations) := by
  intro c d Overlaps
  have hiff := intersectsDamage_after_iff mode hupright hquery
  refine ⟨?_, ?_, isEmpty_damage_after_iff mode hupright⟩
  · rintro ⟨range, dy, h, hoverlaps⟩
    have hrange := hupright range h.mem
    exact hiff.2 ⟨range, dy, h, Band.positions_moved_inter_nonempty hrange hquery hoverlaps⟩
  · intro hexact hexact' hintersects
    obtain ⟨range, dy, h, hshared⟩ := hiff.1 hintersects
    rw [(hexact range dy h).positions_eq, hexact'.positions_eq] at hshared
    exact ⟨range, dy, h, hshared⟩

/-- The second range was added at 140, where it ends at 170. -/
theorem damaging_intersectsDamage :
    let c := FloatContext.new .horizontalTb
    let d := c.after damaging
    d.offset.y = 0 ∧ d.intersectsDamage ⟨111, 119⟩ = false ∧ d.intersectsDamage ⟨170, 180⟩ = true ∧
      (∃ range dy, c.Damages damaging range dy ∧
        (range.movedPositions dy ∩ Band.movedPositions ⟨105, 115⟩ d.offset.y).Nonempty) ∧
      d.damage.isEmpty = false := by
  intro c d
  have hoffset : d.offset.y = 0 := rfl
  have hgap : d.intersectsDamage ⟨111, 119⟩ = false := by decide +kernel
  have hmeets : d.intersectsDamage ⟨105, 115⟩ = true := by decide +kernel
  have hupright : ∀ range, .addDamage range ∈ damaging → range.start ≤ range.stop := by
    intro range h
    simp only [damaging, List.mem_cons, reduceCtorEq, Operation.addDamage.injEq, List.not_mem_nil,
      false_or, or_false] at h
    rcases h with rfl | rfl <;> decide
  have hexact : ∀ range dy, c.Damages damaging range dy → range.MovesExactly dy := by
    intro range dy h
    simp only [damaging, damages_cons_iff, not_damages_nil, reduceCtorEq,
      Operation.addDamage.injEq, false_and, false_or, or_false] at h
    rcases h with ⟨rfl, rfl⟩ | ⟨rfl, rfl⟩ <;> exact ⟨rfl, rfl⟩
  have hlater : (⟨170, 180⟩ : Band).start ≤ (⟨170, 180⟩ : Band).stop := by decide
  have hbefore : (⟨105, 115⟩ : Band).start ≤ (⟨105, 115⟩ : Band).stop := by decide
  obtain ⟨hfound, -, hdamaged⟩ := intersectsDamage_after .horizontalTb hupright hlater
  obtain ⟨-, hmet, -⟩ := intersectsDamage_after .horizontalTb hupright hbefore
  have hsecond : c.Damages damaging ⟨-20, 30⟩ 140 :=
    ⟨damaging.take 5, damaging.drop 6, rfl, rfl⟩
  have hoverlaps : (Band.movedPositions ⟨-20, 30⟩ 140 ∩
      Band.movedPositions ⟨170, 180⟩ d.offset.y).Nonempty := by
    rw [hoffset]
    exact (Band.movedPositions_inter_nonempty_iff (by decide) hlater).2 (by decide)
  have hfirst : .addDamage ⟨0, 10⟩ ∈ damaging := by simp [damaging]
  have hexact' : (⟨105, 115⟩ : Band).MovesExactly d.offset.y := by
    rw [hoffset]
    exact ⟨rfl, rfl⟩
  exact ⟨hoffset, hgap, hfound ⟨_, _, hsecond, hoverlaps⟩, hmet hexact hexact' hmeets,
    hdamaged.2 ⟨_, hfirst⟩⟩

end FloatContext

end FloatLayout
