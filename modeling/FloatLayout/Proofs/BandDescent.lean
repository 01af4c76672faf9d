import FloatLayout.Proofs.BandEnd

/-!
# The way down the bands

Bands from a point, each asked for where the one before it ends, lead down a content area. A band
ends at the block start or at the block end of a float below its first line, so with every band the
walk leaves one of these edges behind, and below the last of them a band is open.

## Main definitions

- `FlowQuery.openAt`: the question for the open band from a position.
- `FloatContext.edgesBelow`: the block edges of floats below a line.
- `Descent`: bands that follow each other down to an open one.
- `FloatContext.BandsExact`: no step down to the next band leaves the range of lengths.
- `FloatContext.Reachable.bands_descend`: the way down ends at an open band.

## Design notes

The walk moves from a band to the next by a sum, which must not be brought back into the range of
lengths: the walk would ask at the greatest position again and again.
-/

namespace FloatLayout

/-- The question for the open band from a position. -/
def FlowQuery.openAt (q : FlowQuery) (position : Length) : FlowQuery :=
  { q with blockStart := position, blockSize := .greatest, kind := .fromPoint }

/-- Bands that follow each other from a position down to an open one. Each starts where the one
    before it ends, and all but the last have a height. -/
inductive Descent : Length → List FlowArea → Prop
  | last {a : FlowArea} (hopen : a.rect.blockSize = .greatest) : Descent a.rect.blockStart [a]
  | next {a : FlowArea} {rest : List FlowArea} (hsize : a.rect.blockSize ≠ .greatest)
      (hdown : a.rect.blockStart < a.rect.blockEnd) (hrest : Descent a.rect.blockEnd rest) :
      Descent a.rect.blockStart (a :: rest)

namespace Descent

variable {position : Length} {areas : List FlowArea}

theorem le_blockStart (h : Descent position areas) : ∀ a ∈ areas, position ≤ a.rect.blockStart := by
  induction h with
  | last _ => simp
  | next _ hdown _ ih =>
    intro b hb
    rcases List.mem_cons.1 hb with rfl | hb
    · exact le_refl _
    · exact le_trans (le_of_lt hdown) (ih b hb)

/-- Every band lies farther down than those before it. -/
theorem pairwise_blockStart (h : Descent position areas) :
    areas.Pairwise fun a b => a.rect.blockStart < b.rect.blockStart := by
  induction h with
  | last _ => simp
  | next _ hdown hrest ih =>
    refine List.pairwise_cons.2 ⟨fun b hb => ?_, ih⟩
    exact lt_of_lt_of_le hdown (hrest.le_blockStart b hb)

end Descent

namespace FloatContext

variable {c : FloatContext} {q : FlowQuery} {position x y : Length} {limit : Nat}

-- ════════════════════════════════════════════════════════════════════════
-- Block edges
-- ════════════════════════════════════════════════════════════════════════

/-- The block starts and the block ends of the floats that a question sees. -/
def blockEdges (c : FloatContext) (q : FlowQuery) : List Length :=
  (c.visible q).map (·.blockStart q.area) ++ (c.visible q).map (·.blockEnd q.area)

/-- The block edges below a line. -/
def edgesBelow (c : FloatContext) (q : FlowQuery) (y : Length) : List Length :=
  (c.blockEdges q).filter (y < ·)

theorem length_edgesBelow_le (c : FloatContext) (q : FlowQuery) (y : Length) :
    (c.edgesBelow q y).length ≤ 2 * (c.visible q).length := by
  have hall : (c.blockEdges q).length = 2 * (c.visible q).length := by
    simp only [blockEdges, List.length_append, List.length_map]
    omega
  exact hall ▸ List.length_filter_le _ _

/-- Fewer edges lie below an edge than below a line above it. -/
theorem length_edgesBelow_lt (hy : y ∈ c.edgesBelow q x) :
    (c.edgesBelow q y).length < (c.edgesBelow q x).length := by
  have hxy : x < y := of_decide_eq_true (List.mem_filter.1 hy).2
  have hsub : c.edgesBelow q y = (c.edgesBelow q x).filter (y < ·) := by
    rw [edgesBelow, edgesBelow, List.filter_filter]
    refine List.filter_congr fun z _ => ?_
    by_cases hyz : y < z
    · have hxz : x < z := lt_trans hxy hyz
      simp [hyz, hxz]
    · simp [hyz]
  rw [hsub, List.length_filter_lt_length_iff_exists]
  exact ⟨y, hy, by simp⟩

/-- The walk cuts a band off at an edge below its first line, or not at all. -/
theorem cutEnd_openAt (h : c.Reachable) :
    c.cutEnd (q.openAt position) = .greatest ∨
      c.cutEnd (q.openAt position) ∈ c.edgesBelow q (c.startOf (q.openAt position)) := by
  have hstop : c.stopOf (q.openAt position) = .greatest := if_pos rfl
  rcases Length.foldl_min_eq_or_mem _ (c.stopOf (q.openAt position)) with hend | hmem
  · exact .inl (hend.trans hstop)
  · right
    obtain ⟨f, hf, -, hcut⟩ := (mem_cuts_iff h rfl).1 hmem
    refine List.mem_filter.2 ⟨?_, decide_eq_true (PlacedFloat.lt_of_cutAt?_eq_some hcut)⟩
    obtain ⟨-, ⟨-, hedge⟩ | ⟨-, -, hedge⟩⟩ := PlacedFloat.cutAt?_eq_some_iff.1 hcut
    · exact List.mem_append_left _ (List.mem_map.2 ⟨f, hf, hedge⟩)
    · exact List.mem_append_right _ (List.mem_map.2 ⟨f, hf, hedge⟩)

-- ════════════════════════════════════════════════════════════════════════
-- One band
-- ════════════════════════════════════════════════════════════════════════

/-- A band from a point starts there, and it is open or ends at an edge below. -/
theorem Reachable.flowArea_openAt (h : c.Reachable) (hadmits : c.Admits (q.openAt position))
    (hcontent : q.content.mode = q.mode) (hruns : c.RunsBounded q)
    (hexact : (c.startOf (q.openAt position)).units = position.units + c.offset.y.units) :
    ∃ a, c.flowArea (q.openAt position) = .ok a ∧ a.rect.blockStart = position ∧
      (a.rect.blockSize = .greatest ∨ a.rect.blockSize ≠ .greatest ∧
        ∃ y ∈ c.edgesBelow q (c.startOf (q.openAt position)),
          y.units = (c.startOf (q.openAt position)).units + a.rect.blockSize.units) := by
  by_cases hbelow : c.BelowAll (q.openAt position)
  · exact ⟨_, flowArea_eq_ok_iff.2 ⟨hadmits, .inl ⟨hbelow, rfl⟩⟩, rfl, .inl rfl⟩
  · obtain ⟨t, ha, hend, -, -⟩ := h.flowArea_eq_answer hadmits hcontent hruns hbelow
    refine ⟨_, ha, ?_, ?_⟩
    · change c.startOf (q.openAt position) - c.offset.y = position
      have := position.lower
      have := position.upper
      rw [Length.ext_iff, Length.units_sub]
      omega
    · rw [blockSize_answer hend]
      by_cases hopen : c.cutEnd (q.openAt position) = .greatest
      · exact .inl (if_pos hopen)
      · rw [if_neg hopen]
        refine Decidable.or_iff_not_imp_left.2 fun hsize => ⟨hsize, ?_⟩
        have hedge := (cutEnd_openAt h).resolve_left hopen
        have hdown := of_decide_eq_true (List.mem_filter.1 hedge).2
        refine ⟨_, hedge, ?_⟩
        -- A difference that was brought back into the range would be the greatest length.
        rw [Length.ext_iff, Length.units_sub, Length.units_greatest] at hsize
        rw [Length.lt_def] at hdown
        rw [Length.units_sub]
        omega

/-- The next position is the edge where the band ends, so that the question from there is exact if
    the sum that leads to it is. -/
theorem startOf_openAt_blockEnd {a : FlowArea} (hstart : a.rect.blockStart = position)
    (hexact : (c.startOf (q.openAt position)).units = position.units + c.offset.y.units)
    (hend : a.rect.blockEnd.units = a.rect.blockStart.units + a.rect.blockSize.units)
    (hy : y.units = (c.startOf (q.openAt position)).units + a.rect.blockSize.units) :
    c.startOf (q.openAt a.rect.blockEnd) = y ∧
      y.units = a.rect.blockEnd.units + c.offset.y.units := by
  rw [hstart] at hend
  have := y.lower
  have := y.upper
  refine ⟨?_, by omega⟩
  change a.rect.blockEnd + c.offset.y = y
  rw [Length.ext_iff, Length.units_add]
  omega

-- ════════════════════════════════════════════════════════════════════════
-- All bands
-- ════════════════════════════════════════════════════════════════════════

/-- The sum that leads from a band to the next was not brought back into the range of lengths, at any
    moment of a walk down the bands. -/
def BandsExact (c : FloatContext) (q : FlowQuery) (position : Length) : Prop :=
  ∀ limit areas, c.bands q limit position = .ok areas → ∀ a ∈ areas, a.rect.blockSize ≠ .greatest →
    a.rect.blockEnd.units = a.rect.blockStart.units + a.rect.blockSize.units

theorem bands_of_open {a : FlowArea} (ha : c.flowArea (q.openAt position) = .ok a)
    (hopen : a.rect.blockSize = .greatest) : c.bands q (limit + 1) position = .ok [a] := by
  rw [bands]
  refine bind_eq_ok_iff.2 ⟨a, ha, ?_⟩
  rw [if_pos hopen]
  rfl

theorem bands_of_next {a : FlowArea} {rest : List FlowArea}
    (ha : c.flowArea (q.openAt position) = .ok a) (hsize : a.rect.blockSize ≠ .greatest)
    (hrest : c.bands q limit a.rect.blockEnd = .ok rest) :
    c.bands q (limit + 1) position = .ok (a :: rest) := by
  rw [bands]
  refine bind_eq_ok_iff.2 ⟨a, ha, ?_⟩
  rw [if_neg hsize]
  exact bind_eq_ok_iff.2 ⟨rest, hrest, rfl⟩

theorem BandsExact.next {a : FlowArea} (hexact : c.BandsExact q position)
    (ha : c.flowArea (q.openAt position) = .ok a) (hsize : a.rect.blockSize ≠ .greatest) :
    a.rect.blockEnd.units = a.rect.blockStart.units + a.rect.blockSize.units ∧
      c.BandsExact q a.rect.blockEnd := by
  constructor
  · have hfirst : c.bands q 1 position = .ok [a] := bands_of_next ha hsize rfl
    exact hexact 1 [a] hfirst a List.mem_cons_self hsize
  · intro limit areas hareas b hb
    exact hexact (limit + 1) (a :: areas) (bands_of_next ha hsize hareas) b
      (List.mem_cons_of_mem a hb)

/-- The walk ends at an open band, and it takes no more bands than there are edges below its first
    line, and one. -/
theorem Reachable.exists_descent (h : c.Reachable) (hadmits : c.Admits (q.openAt position))
    (hcontent : q.content.mode = q.mode) (hruns : c.RunsBounded q)
    (hstart : (c.startOf (q.openAt position)).units = position.units + c.offset.y.units)
    (hexact : c.BandsExact q position) :
    ∃ areas, areas.length ≤ (c.edgesBelow q (c.startOf (q.openAt position))).length + 1 ∧
      Descent position areas ∧
        ∀ limit, areas.length ≤ limit → c.bands q limit position = .ok areas := by
  -- The induction is on the number of edges that the walk has not left behind.
  induction hn : (c.edgesBelow q (c.startOf (q.openAt position))).length using Nat.strongRecOn
    generalizing position with
  | ind n ih =>
    obtain ⟨a, ha, hfrom, hopen | ⟨hsize, y, hy, hend⟩⟩ :=
      h.flowArea_openAt hadmits hcontent hruns hstart
    · refine ⟨[a], by simp, hfrom ▸ .last hopen, fun limit hlimit => ?_⟩
      obtain ⟨k, rfl⟩ := Nat.exists_eq_add_of_le' hlimit
      exact bands_of_open ha hopen
    · obtain ⟨hsum, hnext⟩ := hexact.next ha hsize
      obtain ⟨hline, hsum'⟩ := startOf_openAt_blockEnd hfrom hstart hsum hend
      have hfewer := length_edgesBelow_lt hy
      have hbelow := of_decide_eq_true (List.mem_filter.1 hy).2
      rw [Length.lt_def] at hbelow
      have hadmits' : c.Admits (q.openAt a.rect.blockEnd) :=
        ⟨hadmits.mode, hadmits.blockSize, hadmits.inlineSize, hadmits.checkpoint⟩
      obtain ⟨rest, hlength, hrest, hbands⟩ :=
        ih _ (hn ▸ hline ▸ hfewer) hadmits' (hline ▸ hsum') hnext rfl
      refine ⟨a :: rest, ?_, hfrom ▸ .next hsize ?_ hrest, fun limit hlimit => ?_⟩
      · rw [hline] at hlength
        simp only [List.length_cons]
        omega
      · rw [Length.lt_def]
        omega
      · rw [List.length_cons] at hlimit
        obtain ⟨k, rfl⟩ := Nat.exists_eq_add_of_le' (Nat.le_of_add_left_le hlimit)
        exact bands_of_next ha hsize (hbands k (by omega))

/-- The bands from a position down come to an end. There are at most two for each float that the
    question sees, and an open one. Each starts exactly where the one before it ends, and lies
    farther down. -/
theorem Reachable.bands_descend (h : c.Reachable) (hadmits : c.Admits (q.openAt position))
    (hcontent : q.content.mode = q.mode) (hruns : c.RunsBounded q)
    (hstart : (c.startOf (q.openAt position)).units = position.units + c.offset.y.units)
    (hexact : c.BandsExact q position) :
    ∃ areas, areas.length ≤ 2 * (c.visible q).length + 1 ∧
      (∀ limit, areas.length ≤ limit → c.bands q limit position = .ok areas) ∧
      Descent position areas ∧
      areas.Pairwise fun a b => a.rect.blockStart < b.rect.blockStart := by
  obtain ⟨areas, hlength, hdescent, hbands⟩ :=
    h.exists_descent hadmits hcontent hruns hstart hexact
  have hedges := length_edgesBelow_le c q (c.startOf (q.openAt position))
  exact ⟨areas, by omega, hbands, hdescent, hdescent.pairwise_blockStart⟩

/-- Beside the three floats of `refilled`, the walk from 10 above the containing block takes six
    bands. Seven are allowed, but the float that comes first starts at the first line. -/
theorem refilled_bands_descend :
    refilled.Reachable ∧ refilled.BandsExact besideRefilled (-10) ∧
      ∃ areas, areas.length ≤ 7 ∧ refilled.bands besideRefilled 7 (-10) = .ok areas ∧
        Descent (-10) areas ∧
        areas.map (·.rect.blockStart) = [-10, 5, 20, 35, 50, 90] := by
  have hadmits : refilled.Admits (besideRefilled.openAt (-10)) :=
    ⟨by decide, by decide, by decide, by decide⟩
  have hexact : refilled.BandsExact besideRefilled (-10) := by
    intro limit areas hareas
    rcases limit with _ | _ | _ | _ | _ | _ | limit <;> cases hareas <;> decide
  obtain ⟨areas, hlength, hbands, hdescent, -⟩ :=
    refilled_reachable.bands_descend hadmits rfl (refilled_runsBounded _) rfl hexact
  have hareas := hbands 7 hlength
  refine ⟨refilled_reachable, hexact, areas, hlength, hareas, hdescent, ?_⟩
  cases hareas
  rfl

end FloatContext

end FloatLayout
