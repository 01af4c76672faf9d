import FloatLayout.Damage
import FloatLayout.Proofs.Extremes
import FloatLayout.Proofs.Outcome
import Mathlib.Topology.Instances.Real.Lemmas
import Mathlib.Topology.Order.IntermediateValue

/-!
# Damaged ranges

Adding ranges in any order, and any of them more than once, leaves the same list: the connected
components of all positions that the ranges hold, from the first one on. A range is joined with all
that it overlaps or touches, and no position between two of the ranges that are left is damaged.

## Main definitions

- `Band.positions`, `covered`: the positions of a range, and those of a list of ranges.
- `Damage.Apart`: ranges in order that neither overlap nor touch.
- `Damage.addAll`: adds ranges one after the other.
- `Damage.splice`: one range in the place of a stretch of others.
- `Damage.Apart.insert_eq_splice`: a range is added by the replacement of one stretch.
- `Damage.Apart.intersects_iff`: a range overlaps the damage if it shares a position with it.
- `Damage.addAll_components`: the ranges that are left are the components of what was added.

## Design notes

Ends of ranges are whole numbers, but ranges are joined only if they share a position, so 0 to 10
and 11 to 20 stay apart. Positions are therefore real numbers. The point half a unit past the end of
a range is then a gap, unless another range holds it.

`Damage.insert` goes through the ranges one by one, and proofs follow it. Two searches and one
replacement, as `Damage.splice` describes it, add a range as well. Both agree on ranges that are
apart.
-/

namespace FloatLayout

/-- The positions of a range, both ends included. -/
def Band.positions (r : Band) : Set ℝ := Set.Icc (r.start.units : ℝ) (r.stop.units : ℝ)

/-- The positions that a list of ranges holds. -/
def covered (ranges : List Band) : Set ℝ := {x | ∃ r ∈ ranges, x ∈ r.positions}

variable {r s : Band} {ranges rest : List Band} {x : ℝ} {p : Length}

namespace Band

theorem mem_positions_iff :
    x ∈ r.positions ↔ (r.start.units : ℝ) ≤ x ∧ x ≤ (r.stop.units : ℝ) := Iff.rfl

theorem start_mem_positions (h : r.start ≤ r.stop) : (r.start.units : ℝ) ∈ r.positions :=
  ⟨le_refl _, Int.cast_le.2 h⟩

theorem stop_mem_positions (h : r.start ≤ r.stop) : (r.stop.units : ℝ) ∈ r.positions :=
  ⟨Int.cast_le.2 h, le_refl _⟩

/-- A range that does not end before it starts is known by its positions. -/
theorem eq_of_positions_eq (hr : r.start ≤ r.stop) (hs : s.start ≤ s.stop)
    (h : r.positions = s.positions) : r = s := by
  have hfirst : (s.start.units : ℝ) ∈ r.positions := h ▸ start_mem_positions hs
  have hlast : (s.stop.units : ℝ) ∈ r.positions := h ▸ stop_mem_positions hs
  have hfirst' : (r.start.units : ℝ) ∈ s.positions := h ▸ start_mem_positions hr
  have hlast' : (r.stop.units : ℝ) ∈ s.positions := h ▸ stop_mem_positions hr
  simp only [mem_positions_iff, Int.cast_le] at hfirst hlast hfirst' hlast'
  rcases r with ⟨a, b⟩
  rcases s with ⟨c, d⟩
  simp only [mk.injEq, Length.ext_iff]
  exact ⟨le_antisymm hfirst.1 hfirst'.1, le_antisymm hlast'.2 hlast.2⟩

/-- Two ranges share a position exactly if neither ends before the other starts. -/
theorem positions_inter_nonempty_iff (hr : r.start ≤ r.stop) (hs : s.start ≤ s.stop) :
    (r.positions ∩ s.positions).Nonempty ↔ r.start ≤ s.stop ∧ s.start ≤ r.stop := by
  simp only [Length.le_def] at *
  rw [positions, positions, Set.Icc_inter_Icc, Set.nonempty_Icc, sup_le_iff, le_inf_iff, le_inf_iff]
  simp only [Int.cast_le]
  omega

end Band

-- ════════════════════════════════════════════════════════════════════════
-- Adding a range
-- ════════════════════════════════════════════════════════════════════════

theorem covered_nil : covered [] = ∅ := by
  ext x
  simp [covered]

theorem covered_cons (r : Band) (rest : List Band) :
    covered (r :: rest) = r.positions ∪ covered rest := by
  ext x
  simp [covered]

theorem covered_congr {ranges' : List Band} (h : ∀ r, r ∈ ranges' ↔ r ∈ ranges) :
    covered ranges' = covered ranges := by
  ext x
  simp only [covered, h]

namespace Damage

variable {d e : Damage}

/-- The range that takes the place of two that overlap or touch holds what they hold. -/
theorem positions_join (h : ¬s.stop < r.start) (h' : ¬r.stop < s.start) :
    Band.positions ⟨min r.start s.start, max r.stop s.stop⟩ = r.positions ∪ s.positions := by
  rw [not_lt, Length.le_def] at h h'
  simp only [Band.positions, Length.units_min, Length.units_max, Int.cast_min, Int.cast_max]
  exact (Set.Icc_union_Icc' (Int.cast_le.2 h') (Int.cast_le.2 h)).symm

/-- Adding a range adds its positions, whatever ranges are there. -/
theorem covered_insert (r : Band) (ranges : List Band) :
    covered (insert r ranges) = r.positions ∪ covered ranges := by
  induction ranges generalizing r with
  | nil => rw [insert, covered_cons]
  | cons s rest ih =>
    rw [insert]
    split
    · rw [covered_cons, ih, covered_cons, Set.union_left_comm]
    · next hbefore =>
      split
      · rw [covered_cons]
      · next hbehind => rw [ih, positions_join hbefore hbehind, covered_cons, Set.union_assoc]

/-- The ranges stand in order, and each ends before the next one starts. -/
structure Apart (d : Damage) : Prop where
  start_le_stop : ∀ r ∈ d.ranges, r.start ≤ r.stop
  pairwise : d.ranges.Pairwise fun r s => r.stop < s.start

theorem Apart.none : Apart none := ⟨List.forall_mem_nil _, List.Pairwise.nil⟩

theorem Apart.tail (h : Apart ⟨s :: rest⟩) : Apart ⟨rest⟩ :=
  ⟨(List.forall_mem_cons.1 h.start_le_stop).2, (List.pairwise_cons.1 h.pairwise).2⟩

/-- A position before a range and before those that it is added to lies before the outcome. -/
theorem lt_start_of_mem_insert (hr : p < r.start) (h : ∀ s ∈ ranges, p < s.start) :
    ∀ s ∈ insert r ranges, p < s.start := by
  induction ranges generalizing r with
  | nil => simpa [insert] using hr
  | cons s rest ih =>
    obtain ⟨hs, hrest⟩ := List.forall_mem_cons.1 h
    rw [insert]
    split
    · exact List.forall_mem_cons.2 ⟨hs, ih hr hrest⟩
    · split
      · exact List.forall_mem_cons.2 ⟨hr, h⟩
      · refine ih ?_ hrest
        simp only [Length.lt_def, Length.units_min] at *
        omega

theorem Apart.insert (hr : r.start ≤ r.stop) (h : Apart ⟨ranges⟩) :
    Apart ⟨Damage.insert r ranges⟩ := by
  induction ranges generalizing r with
  | nil => exact ⟨by simpa [Damage.insert] using hr, List.pairwise_singleton _ _⟩
  | cons s rest ih =>
    obtain ⟨hs, hrest⟩ := List.forall_mem_cons.1 h.start_le_stop
    obtain ⟨hafter, -⟩ := List.pairwise_cons.1 h.pairwise
    rw [Damage.insert]
    split
    · next hbefore =>
      have htail := ih hr h.tail
      exact ⟨List.forall_mem_cons.2 ⟨hs, htail.start_le_stop⟩,
        List.pairwise_cons.2 ⟨lt_start_of_mem_insert hbefore hafter, htail.pairwise⟩⟩
    · split
      · next hbehind =>
        refine ⟨List.forall_mem_cons.2 ⟨hr, h.start_le_stop⟩, List.pairwise_cons.2 ⟨?_, h.pairwise⟩⟩
        refine List.forall_mem_cons.2 ⟨hbehind, fun t ht => ?_⟩
        exact lt_of_lt_of_le hbehind
          (le_trans hs (le_of_lt (hafter t ht)))
      · refine ih ?_ h.tail
        simp only [Length.le_def, Length.units_min, Length.units_max] at *
        omega

/-- If a range ends before a position, so do the ranges before it. -/
theorem Apart.pairwise_stop_lt (h : d.Apart) (p : Length) :
    d.ranges.Pairwise fun s t => t.stop < p → s.stop < p := by
  refine h.pairwise.imp_of_mem fun {s t} _ ht hst htp => ?_
  exact lt_trans (lt_of_lt_of_le hst (h.start_le_stop t ht)) htp

/-- If a range starts before a position or there, so do the ranges before it. -/
theorem Apart.pairwise_start_le (h : d.Apart) (p : Length) :
    d.ranges.Pairwise fun s t => t.start ≤ p → s.start ≤ p := by
  refine h.pairwise.imp_of_mem fun {s t} hs _ hst htp => ?_
  exact le_trans (h.start_le_stop s hs) (le_trans (le_of_lt hst) htp)

theorem add_eq_ok (d : Damage) (hr : r.start ≤ r.stop) : d.add r = .ok ⟨insert r d.ranges⟩ :=
  require_bind_eq_ok_iff.2 ⟨hr, rfl⟩

/-- A range overlaps the damage exactly if it shares a position with it. -/
theorem Apart.intersects_iff (h : d.Apart) (hr : r.start ≤ r.stop) :
    d.intersects r = true ↔ (covered d.ranges ∩ r.positions).Nonempty := by
  -- The ranges that start in time are the first ones.
  simp only [intersects, List.any_eq_true,
    mem_takeWhile_iff_of_pairwise (h.pairwise_start_le r.stop), decide_eq_true_eq, and_assoc]
  constructor
  · rintro ⟨s, hs, hmeet⟩
    obtain ⟨x, hx, hx'⟩ := (Band.positions_inter_nonempty_iff (h.start_le_stop s hs) hr).2 hmeet
    exact ⟨x, ⟨s, hs, hx⟩, hx'⟩
  · rintro ⟨x, ⟨s, hs, hx⟩, hx'⟩
    exact ⟨s, hs, (Band.positions_inter_nonempty_iff (h.start_le_stop s hs) hr).1 ⟨x, hx, hx'⟩⟩

theorem Apart.isEmpty_eq_false_iff (h : d.Apart) :
    d.isEmpty = false ↔ (covered d.ranges).Nonempty := by
  rw [isEmpty, List.isEmpty_eq_false_iff_exists_mem]
  constructor
  · rintro ⟨r, hr⟩
    exact ⟨_, r, hr, Band.start_mem_positions (h.start_le_stop r hr)⟩
  · rintro ⟨x, r, hr, -⟩
    exact ⟨r, hr⟩

-- ════════════════════════════════════════════════════════════════════════
-- Replacing a stretch
-- ════════════════════════════════════════════════════════════════════════

/-- A range, widened to the start of the first of the ranges in a stretch and to the end of the last
    of them. -/
def widened (r : Band) (stretch : List Band) : Band where
  start := stretch.head?.elim r.start (min r.start ·.start)
  stop := stretch.getLast?.elim r.stop (max r.stop ·.stop)

/-- One range takes the place of `count` ranges from the index `first` on. It holds the first and
    the last of them. -/
def splice (r : Band) (ranges : List Band) (first count : Nat) : List Band :=
  ranges.take first ++
    widened r ((ranges.drop first).take count) :: (ranges.drop first).drop count

/-- A range that starts before a stretch and ends behind it takes in the ranges of the stretch. -/
theorem widened_cons (h : Apart ⟨s :: rest⟩) :
    widened ⟨min r.start s.start, max r.stop s.stop⟩ rest = widened r (s :: rest) := by
  cases rest with
  | nil => rfl
  | cons t rest =>
    obtain ⟨hs, hrest⟩ := List.forall_mem_cons.1 h.start_le_stop
    obtain ⟨hafter, -⟩ := List.pairwise_cons.1 h.pairwise
    obtain ⟨last, hlast⟩ : ∃ last, (t :: rest).getLast? = some last :=
      ⟨_, List.getLast?_eq_some_getLast (List.cons_ne_nil t rest)⟩
    have hmem := List.mem_of_getLast? hlast
    have hstart : s.start ≤ t.start := le_trans hs (le_of_lt (hafter t List.mem_cons_self))
    have hstop : s.stop ≤ last.stop := le_trans (le_of_lt (hafter last hmem)) (hrest last hmem)
    simp only [widened, List.head?_cons, List.getLast?_cons_cons, hlast, Option.elim_some,
      min_assoc, max_assoc, min_eq_left hstart, max_eq_right hstop]

/-- Ranges before the added one stay as they are. -/
theorem insert_append {before : List Band} (h : ∀ s ∈ before, s.stop < r.start) :
    insert r (before ++ rest) = before ++ insert r rest := by
  induction before with
  | nil => rfl
  | cons s before ih =>
    obtain ⟨hs, hbefore⟩ := List.forall_mem_cons.1 h
    rw [List.cons_append, insert, if_pos hs, ih hbefore, List.cons_append]

/-- One range takes the place of all that it overlaps or touches. -/
theorem Apart.insert_stretch {stretch behind : List Band} (h : Apart ⟨stretch ++ behind⟩)
    (hstop : ∀ s ∈ stretch, ¬s.stop < r.start) (hstart : ∀ s ∈ stretch, s.start ≤ r.stop)
    (hbehind : ∀ s ∈ behind, ¬s.start ≤ r.stop) (hr : r.start ≤ r.stop) :
    Damage.insert r (stretch ++ behind) = widened r stretch :: behind := by
  induction stretch generalizing r with
  | nil =>
    cases behind with
    | nil => rfl
    | cons s behind =>
      have hs : r.stop < s.start := not_le.1 (hbehind s List.mem_cons_self)
      have hupright : s.start ≤ s.stop := h.start_le_stop s List.mem_cons_self
      have hafter : ¬s.stop < r.start :=
        not_lt.2 (le_trans hr (le_trans (le_of_lt hs) hupright))
      rw [List.nil_append, Damage.insert, if_neg hafter, if_pos hs]
      rfl
  | cons s stretch ih =>
    obtain ⟨hs, hstop⟩ := List.forall_mem_cons.1 hstop
    obtain ⟨hs', hstart⟩ := List.forall_mem_cons.1 hstart
    obtain ⟨hafter, -⟩ := List.pairwise_cons.1 h.pairwise
    have hstretch : Apart ⟨s :: stretch⟩ :=
      ⟨fun t ht => h.start_le_stop t (List.mem_append_left behind ht),
        (List.pairwise_append.1 h.pairwise).1⟩
    rw [List.cons_append, Damage.insert, if_neg hs, if_neg (not_lt.2 hs'), ← widened_cons hstretch]
    -- The wider range still meets what is left of the stretch, and `s` ends before what is behind.
    refine ih h.tail (fun t ht => ?_) (fun t ht => ?_) (fun t ht => ?_) ?_
    · exact fun hlt => hstop t ht (lt_of_lt_of_le hlt (min_le_left _ _))
    · exact le_trans (hstart t ht) (le_max_left _ _)
    · exact fun hle => (le_max_iff.1 hle).elim (hbehind t ht)
        (not_le.2 (hafter t (List.mem_append_right stretch ht)))
    · exact le_trans (min_le_left _ _) (le_trans hr (le_max_left _ _))

/-- Adding a range joins it with one range after the other. If the ranges are apart, this replaces
    one stretch of them. It begins behind the ranges that end before the added one, and of those from
    there on it has all that do not start behind the added one. -/
theorem Apart.insert_eq_splice {first count : Nat} (hr : r.start ≤ r.stop) (h : Apart ⟨ranges⟩)
    (hfirst : IsPartitionPoint (·.stop < r.start) ranges first)
    (hcount : IsPartitionPoint (·.start ≤ r.stop) (ranges.drop first) count) :
    Damage.insert r ranges = splice r ranges first count := by
  have hrest : Apart ⟨ranges.drop first⟩ :=
    ⟨fun s hs => h.start_le_stop s (List.drop_subset _ _ hs), h.pairwise.drop⟩
  have hstretch : ∀ s ∈ (ranges.drop first).take count, ¬s.stop < r.start := fun s hs =>
    hfirst.behind s (List.take_subset _ _ hs)
  rw [← List.take_append_drop count (ranges.drop first)] at hrest
  calc Damage.insert r ranges
      = Damage.insert r (ranges.take first ++ ranges.drop first) := by
        rw [List.take_append_drop]
    _ = ranges.take first ++ Damage.insert r (ranges.drop first) := insert_append hfirst.before
    _ = splice r ranges first count := by
        rw [splice, ← hrest.insert_stretch hstretch hcount.before hcount.behind hr,
          List.take_append_drop]

/-- A range is added to ranges that are apart by the replacement of the stretch that both searches
    find. -/
theorem Apart.add_eq_splice (h : d.Apart) (hr : r.start ≤ r.stop) :
    ∃ first count, IsPartitionPoint (·.stop < r.start) d.ranges first ∧
      IsPartitionPoint (·.start ≤ r.stop) (d.ranges.drop first) count ∧
      d.add r = .ok ⟨splice r d.ranges first count⟩ := by
  obtain ⟨first, hfirst⟩ := exists_isPartitionPoint (h.pairwise_stop_lt r.start)
  obtain ⟨count, hcount⟩ :=
    exists_isPartitionPoint ((h.pairwise_start_le r.stop).drop (i := first))
  refine ⟨first, count, hfirst, hcount, ?_⟩
  rw [add_eq_ok d hr, insert_eq_splice hr h hfirst hcount]

example : splice ⟨25, 70⟩ [⟨0, 10⟩, ⟨20, 30⟩, ⟨50, 60⟩, ⟨71, 80⟩] 1 2 =
    [⟨0, 10⟩, ⟨20, 70⟩, ⟨71, 80⟩] := by decide

-- ════════════════════════════════════════════════════════════════════════
-- Components
-- ════════════════════════════════════════════════════════════════════════

/-- Of two ranges, one ends before the other starts. -/
theorem Apart.eq_or_lt (h : d.Apart) (hr : r ∈ d.ranges) (hs : s ∈ d.ranges) :
    s = r ∨ s.stop < r.start ∨ r.stop < s.start := by
  let Separated (r s : Band) : Prop := s = r ∨ s.stop < r.start ∨ r.stop < s.start
  have hforth : d.ranges.Pairwise Separated := h.pairwise.imp fun hlt => .inr (.inr hlt)
  have hback : d.ranges.Pairwise (flip Separated) := h.pairwise.imp fun hlt => .inr (.inl hlt)
  exact List.Pairwise.forall_of_forall_of_flip (fun r _ => .inl rfl) hforth hback hr hs

/-- Half a unit before and half a unit after a range nothing is damaged. -/
theorem Apart.half_not_mem (h : d.Apart) (hr : r ∈ d.ranges) :
    (r.start.units : ℝ) - 1 / 2 ∉ covered d.ranges ∧
      (r.stop.units : ℝ) + 1 / 2 ∉ covered d.ranges := by
  have hupright := h.start_le_stop r hr
  have hgap : ∀ s ∈ d.ranges, s = r ∨ (s.stop.units : ℝ) + 1 ≤ r.start.units ∨
      (r.stop.units : ℝ) + 1 ≤ s.start.units := by
    intro s hs
    have hcast : ∀ a b : Length, a < b → (a.units : ℝ) + 1 ≤ b.units := fun a b hab => by
      exact_mod_cast hab
    exact (h.eq_or_lt hr hs).imp_right (Or.imp (hcast _ _) (hcast _ _))
  have hcast : (r.start.units : ℝ) ≤ r.stop.units := Int.cast_le.2 hupright
  constructor
  · rintro ⟨s, hs, hx⟩
    rw [Band.mem_positions_iff] at hx
    rcases hgap s hs with rfl | hlt | hlt <;> linarith
  · rintro ⟨s, hs, hx⟩
    rw [Band.mem_positions_iff] at hx
    rcases hgap s hs with rfl | hlt | hlt <;> linarith

/-- The component of a damaged position is the range that holds it. -/
theorem Apart.connectedComponentIn_eq (h : d.Apart) (hr : r ∈ d.ranges) (hx : x ∈ r.positions) :
    connectedComponentIn (covered d.ranges) x = r.positions := by
  have hcovered : r.positions ⊆ covered d.ranges := fun y hy => ⟨r, hr, hy⟩
  refine Set.Subset.antisymm (fun y hy => ?_)
    (isPreconnected_Icc.subset_connectedComponentIn hx hcovered)
  -- A position between `x` and `y` would be damaged, and just past the ends of `r` none is.
  have hconnected := (isPreconnected_connectedComponentIn (x := x)
    (F := covered d.ranges)).ordConnected
  have hself := mem_connectedComponentIn (hcovered hx)
  obtain ⟨hbefore, hafter⟩ := h.half_not_mem hr
  obtain ⟨s, hs, hys⟩ := connectedComponentIn_subset _ _ hy
  rw [Band.mem_positions_iff] at hx hys
  rcases h.eq_or_lt hr hs with rfl | hlt | hlt
  · exact hys
  · have hgap : (s.stop.units : ℝ) + 1 ≤ r.start.units := by exact_mod_cast hlt
    have hbetween : (r.start.units : ℝ) - 1 / 2 ∈ Set.Icc y x := ⟨by linarith, by linarith⟩
    exact absurd (connectedComponentIn_subset _ _ (hconnected.out hy hself hbetween)) hbefore
  · have hgap : (r.stop.units : ℝ) + 1 ≤ s.start.units := by exact_mod_cast hlt
    have hbetween : (r.stop.units : ℝ) + 1 / 2 ∈ Set.Icc x y := ⟨by linarith, by linarith⟩
    exact absurd (connectedComponentIn_subset _ _ (hconnected.out hself hy hbetween)) hafter

/-- The ranges are the components of what they hold. -/
theorem Apart.components (h : d.Apart) :
    Band.positions '' {r | r ∈ d.ranges} =
      connectedComponentIn (covered d.ranges) '' covered d.ranges := by
  ext c
  constructor
  · rintro ⟨r, hr, rfl⟩
    have hstart := Band.start_mem_positions (h.start_le_stop r hr)
    exact ⟨_, ⟨r, hr, hstart⟩, h.connectedComponentIn_eq hr hstart⟩
  · rintro ⟨x, ⟨r, hr, hx⟩, rfl⟩
    exact ⟨r, hr, (h.connectedComponentIn_eq hr hx).symm⟩

/-- Ranges that are apart are known by the positions they hold. -/
theorem Apart.eq_of_covered_eq (hd : d.Apart) (he : e.Apart)
    (h : covered d.ranges = covered e.ranges) : d = e := by
  have himage : Band.positions '' {r | r ∈ d.ranges} = Band.positions '' {r | r ∈ e.ranges} := by
    rw [hd.components, he.components, h]
  have hsubset : ∀ {d e : Damage}, d.Apart → e.Apart →
      Band.positions '' {r | r ∈ d.ranges} ⊆ Band.positions '' {r | r ∈ e.ranges} →
        ∀ r ∈ d.ranges, r ∈ e.ranges := by
    intro d e hd he hsub r hr
    obtain ⟨s, hs, hpositions⟩ := hsub ⟨r, hr, rfl⟩
    cases Band.eq_of_positions_eq (he.start_le_stop s hs) (hd.start_le_stop r hr) hpositions
    exact hs
  have hnodup : ∀ {d : Damage}, d.Apart → d.ranges.Nodup := by
    intro d hd
    refine hd.pairwise.imp_of_mem fun {r s} hr _ hrs heq => ?_
    rw [← heq] at hrs
    exact not_le.2 hrs (hd.start_le_stop r hr)
  have hperm : d.ranges.Perm e.ranges := by
    rw [List.perm_ext_iff_of_nodup (hnodup hd) (hnodup he)]
    exact fun r => ⟨hsubset hd he himage.subset r, hsubset he hd himage.symm.subset r⟩
  have hantisymm : ∀ r s, r ∈ d.ranges → s ∈ e.ranges → r.stop < s.start → s.stop < r.start →
      r = s := by
    intro r s hr hs hrs hsr
    have hr := hd.start_le_stop r hr
    have hs := he.start_le_stop s hs
    simp only [Length.le_def, Length.lt_def] at *
    omega
  have hranges : d.ranges = e.ranges := hperm.eq_of_pairwise hantisymm hd.pairwise he.pairwise
  cases d
  cases e
  cases hranges
  rfl

-- ════════════════════════════════════════════════════════════════════════
-- Adding many ranges
-- ════════════════════════════════════════════════════════════════════════

/-- Adds ranges, one after the other. -/
def addAll (d : Damage) (ranges : List Band) : Except Fault Damage := ranges.foldlM add d

/-- Ranges that do not end before they start can be added, and what they hold is added. -/
theorem Apart.exists_addAll (h : d.Apart) (hranges : ∀ r ∈ ranges, r.start ≤ r.stop) :
    ∃ e, d.addAll ranges = .ok e ∧ e.Apart ∧
      covered e.ranges = covered d.ranges ∪ covered ranges := by
  induction ranges generalizing d with
  | nil => exact ⟨d, rfl, h, by rw [covered_nil, Set.union_empty]⟩
  | cons r rest ih =>
    obtain ⟨hr, hrest⟩ := List.forall_mem_cons.1 hranges
    obtain ⟨e, he, hapart, hcovered⟩ := ih (Apart.insert hr h) hrest
    refine ⟨e, ?_, hapart, ?_⟩
    · rw [addAll, List.foldlM_cons, add_eq_ok d hr]
      exact he
    · rw [hcovered, covered_insert, covered_cons, Set.union_assoc, Set.union_left_comm]

/-- Ranges are added in whatever order and however often each of them. What is left are ranges in
    order that neither overlap nor touch, the connected components of all positions added. -/
theorem addAll_components (hranges : ∀ r ∈ ranges, r.start ≤ r.stop) :
    ∃ d, none.addAll ranges = .ok d ∧ (∀ r ∈ d.ranges, r.start ≤ r.stop) ∧
      d.ranges.Pairwise (fun r s => r.stop < s.start) ∧
      Band.positions '' {r | r ∈ d.ranges} =
        connectedComponentIn (covered ranges) '' covered ranges ∧
      ∀ ranges', (∀ r, r ∈ ranges' ↔ r ∈ ranges) → none.addAll ranges' = .ok d := by
  obtain ⟨d, hd, hapart, hcovered⟩ := Apart.none.exists_addAll hranges
  have hnone : covered none.ranges = ∅ := covered_nil
  rw [hnone, Set.empty_union] at hcovered
  refine ⟨d, hd, hapart.start_le_stop, hapart.pairwise, ?_, fun ranges' hsame => ?_⟩
  · rw [hapart.components, hcovered]
  · obtain ⟨e, he, hapart', hcovered'⟩ :=
      Apart.none.exists_addAll fun r hr => hranges r ((hsame r).1 hr)
    rw [hnone, Set.empty_union, covered_congr hsame, ← hcovered] at hcovered'
    rw [he, hapart'.eq_of_covered_eq hapart hcovered']

/-- The range from 25 to 70 joins three others, of which two were joined before. -/
theorem addAll_components_joined :
    let ranges : List Band := [⟨50, 60⟩, ⟨0, 10⟩, ⟨20, 30⟩, ⟨10, 20⟩, ⟨25, 70⟩, ⟨71, 80⟩]
    none.addAll ranges = .ok ⟨[⟨0, 70⟩, ⟨71, 80⟩]⟩ ∧
      none.addAll (ranges.reverse ++ ranges) = .ok ⟨[⟨0, 70⟩, ⟨71, 80⟩]⟩ ∧
      Band.positions '' {r | r ∈ [(⟨0, 70⟩ : Band), ⟨71, 80⟩]} =
        connectedComponentIn (covered ranges) '' covered ranges := by
  intro ranges
  have hupright : ∀ r ∈ ranges, r.start ≤ r.stop := by decide
  obtain ⟨d, hd, -, -, hcomponents, hsame⟩ := addAll_components hupright
  have hvalue : none.addAll ranges = .ok ⟨[⟨0, 70⟩, ⟨71, 80⟩]⟩ := rfl
  cases hvalue.symm.trans hd
  exact ⟨hvalue, hsame _ fun r => by simp, hcomponents⟩

end Damage

end FloatLayout
