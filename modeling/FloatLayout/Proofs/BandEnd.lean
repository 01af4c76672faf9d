import FloatLayout.Proofs.FlowAnswer

/-!
# Ends of bands

A band from a point reaches down to the first line that other floats cross than its first line. One
more thing may end it. The walk takes the block start of the area of every float below the point for
such a line, also of an area that lies outside of its margin box, where no line crosses it.

## Main definitions

- `FirstAfter`: the first position of a range at which something holds.
- `FloatContext.Changes`: other floats cross a line than cross the first line of a question.
- `FloatContext.Phantom`: the walk comes to an area that starts at a line and that no line crosses.
- `FloatContext.cutEnd_firstAfter`: the first of both ends a band.
-/

namespace FloatLayout

/-- The first position after `start` and before `stop` at which `P` holds, or `stop` if it holds at
    none. -/
def FirstAfter (P : Length → Prop) (start stop y : Length) : Prop :=
  (y = stop ∨ start < y ∧ y < stop ∧ P y) ∧ ∀ x, start < x → x < y → ¬P x

/-- The first position at which one of two things holds is the first one at which a certain one
    holds, exactly if that one never comes later than the other. -/
theorem FirstAfter.or_iff {P Q : Length → Prop} {start stop y : Length}
    (h : FirstAfter (fun x => P x ∨ Q x) start stop y) :
    FirstAfter P start stop y ↔
      ∀ x, start < x → x < stop → Q x → ∃ z, start < z ∧ z ≤ x ∧ P z := by
  obtain ⟨hend, hfirst⟩ := h
  constructor
  · rintro ⟨hendP, -⟩ x hstart hstop hx
    have hyx : ¬x < y := fun hxy => hfirst x hstart hxy (.inr hx)
    rcases hendP with rfl | ⟨hy, -, hP⟩
    · exact absurd hstop hyx
    · exact ⟨y, hy, not_lt.1 hyx, hP⟩
  · intro hearlier
    refine ⟨?_, fun x hstart hxy hP => hfirst x hstart hxy (.inl hP)⟩
    rcases hend with hy | ⟨hy, hstop, hP | hQ⟩
    · exact .inl hy
    · exact .inr ⟨hy, hstop, hP⟩
    · obtain ⟨z, hz, hzy, hP⟩ := hearlier y hy hstop hQ
      have hyz : ¬z < y := fun hlt => hfirst z hz hlt (.inl hP)
      rw [le_antisymm (not_lt.1 hyz) hzy]
      exact .inr ⟨hz, (le_antisymm (not_lt.1 hyz) hzy) ▸ hstop, hP⟩

/-- A block size reaches from `start` to `stop`. The greatest one may stand for an open end. -/
def Spans (start stop size : Length) : Prop :=
  size = stop - start ∨ stop = .greatest ∧ size = .greatest

namespace FloatContext

variable {c : FloatContext} {q : FlowQuery} {f : PlacedFloat} {x y p : Length}

/-- The floats whose areas a line crosses. -/
def crossing (c : FloatContext) (q : FlowQuery) (y : Length) : List PlacedFloat :=
  (c.visible q).filter (·.Counts q.area ⟨y, y⟩)

/-- Other floats cross a line than cross the first line of a question. -/
def Changes (c : FloatContext) (q : FlowQuery) (y : Length) : Prop :=
  c.crossing q y ≠ c.crossing q (c.startOf q)

/-- An area starts at a line and ends there or above it, so that no line crosses it, and the walk
    does not stop before its float. -/
def Phantom (c : FloatContext) (q : FlowQuery) (y : Length) : Prop :=
  ∃ f ∈ c.visible q, ¬f.AllAbove (c.startOf q) ∧ f.isEmpty q.area = false ∧
    f.blockStart q.area = y ∧ f.blockEnd q.area ≤ y

/-- Where the walk leaves the block end of a question. -/
def cutEnd (c : FloatContext) (q : FlowQuery) : Length :=
  (Clearing.cuts q.kind q.area (c.startOf q) (c.visible q)).foldl min (c.stopOf q)

theorem changes_iff :
    c.Changes q y ↔ ∃ f ∈ c.visible q,
      ¬(f.Counts q.area ⟨y, y⟩ ↔ f.Counts q.area ⟨c.startOf q, c.startOf q⟩) := by
  constructor
  · intro h
    refine Decidable.by_contra fun hnone => h (List.filter_congr fun f hf => ?_)
    rw [decide_eq_decide]
    exact Decidable.by_contra fun hne => hnone ⟨f, hf, hne⟩
  · rintro ⟨f, hf, hne⟩ heq
    apply hne
    have hmem : f ∈ c.crossing q y ↔ f ∈ c.crossing q (c.startOf q) := by rw [heq]
    simpa only [crossing, List.mem_filter, hf, true_and, decide_eq_true_eq] using hmem

theorem mem_cuts_iff (h : c.Reachable) (hkind : q.kind = .fromPoint) :
    p ∈ Clearing.cuts q.kind q.area (c.startOf q) (c.visible q) ↔
      ∃ f ∈ c.visible q, ¬f.AllAbove (c.startOf q) ∧ f.cutAt? q.area (c.startOf q) = some p := by
  rw [hkind]
  have hmarks := h.visible_wellMarked q
  simp only [Clearing.cuts, List.mem_filterMap, hmarks.mem_takeWhile_iff, and_assoc]

/-- Where the walk cuts a band off, other floats cross the line, or an area starts that no line
    crosses. -/
theorem changes_or_phantom_of_cutAt? (hf : f ∈ c.visible q) (habove : ¬f.AllAbove (c.startOf q))
    (hp : f.cutAt? q.area (c.startOf q) = some p) : c.Changes q p ∨ c.Phantom q p := by
  obtain ⟨hempty, ⟨hbelow, rfl⟩ | ⟨hstart, hreach, rfl⟩⟩ := PlacedFloat.cutAt?_eq_some_iff.1 hp
  · by_cases hrange : f.blockStart q.area < f.blockEnd q.area
    · left
      refine changes_iff.2 ⟨f, hf, fun hiff => ?_⟩
      have hcounts := hiff.1 ⟨hempty, PlacedFloat.crosses_line.2 ⟨le_refl _, hrange⟩⟩
      exact absurd (PlacedFloat.crosses_line.1 hcounts.2).1 (not_le.2 hbelow)
    · exact .inr ⟨f, hf, habove, hempty, rfl, not_lt.1 hrange⟩
  · left
    refine changes_iff.2 ⟨f, hf, fun hiff => ?_⟩
    have hcounts := hiff.2 ⟨hempty, PlacedFloat.crosses_line.2 ⟨hstart, hreach⟩⟩
    exact absurd (PlacedFloat.crosses_line.1 hcounts.2).2 (lt_irrefl _)

/-- A float whose area crosses a line that its first line does not, or the other way round, cuts the
    band off at the line or above it. -/
theorem exists_cutAt?_le_of_changes (h : c.Reachable) (hx : c.startOf q < x)
    (hchange : c.Changes q x) :
    ∃ f ∈ c.visible q, ¬f.AllAbove (c.startOf q) ∧
      ∃ p, f.cutAt? q.area (c.startOf q) = some p ∧ p ≤ x := by
  obtain ⟨f, hf, hne⟩ := changes_iff.1 hchange
  have habove : ¬f.AllAbove (c.startOf q) := by
    intro habove
    -- A float above the first line crosses neither of the two lines.
    have hbottom := (h.visible_wellMarked q).bottom_le_of_allAbove hf habove
    have hbottom' := le_trans hbottom (le_of_lt hx)
    exact hne (iff_of_false (PlacedFloat.not_counts_of_bottom_le hbottom')
      (PlacedFloat.not_counts_of_bottom_le hbottom))
  refine ⟨f, hf, habove, ?_⟩
  have hempty : f.isEmpty q.area = false := by
    cases hempty : f.isEmpty q.area with
    | false => rfl
    | true => simp [PlacedFloat.Counts, hempty] at hne
  simp only [PlacedFloat.Counts, hempty, true_and, PlacedFloat.crosses_line] at hne
  simp only [PlacedFloat.cutAt?_eq_some_iff, hempty, true_and]
  by_cases hbelow : c.startOf q < f.blockStart q.area
  · refine ⟨_, .inl ⟨hbelow, rfl⟩, ?_⟩
    simp only [Length.le_def, Length.lt_def] at *
    omega
  · have hstart := not_lt.1 hbelow
    have hreach : c.startOf q < f.blockEnd q.area ∧ f.blockEnd q.area ≤ x := by
      simp only [Length.le_def, Length.lt_def] at *
      omega
    exact ⟨_, .inr ⟨hstart, hreach.1, rfl⟩, hreach.2⟩

theorem exists_cutAt?_of_phantom (hx : c.startOf q < x) (h : c.Phantom q x) :
    ∃ f ∈ c.visible q, ¬f.AllAbove (c.startOf q) ∧ f.cutAt? q.area (c.startOf q) = some x := by
  obtain ⟨f, hf, habove, hempty, rfl, -⟩ := h
  exact ⟨f, hf, habove, PlacedFloat.cutAt?_eq_some_iff.2 ⟨hempty, .inl ⟨hx, rfl⟩⟩⟩

/-- A band from a point ends at the first line that other floats cross, or where an area starts that
    no line crosses. -/
theorem cutEnd_firstAfter (h : c.Reachable) (hkind : q.kind = .fromPoint) :
    FirstAfter (fun x => c.Changes q x ∨ c.Phantom q x) (c.startOf q) (c.stopOf q)
      (c.cutEnd q) := by
  have hbound := Length.le_foldl_min_iff.1 (le_refl (c.cutEnd q))
  constructor
  · by_cases hstop : c.cutEnd q = c.stopOf q
    · exact .inl hstop
    · right
      have hmem := (Length.foldl_min_eq_or_mem _ _).resolve_left hstop
      obtain ⟨f, hf, habove, hcut⟩ := (mem_cuts_iff h hkind).1 hmem
      have hstart := PlacedFloat.lt_of_cutAt?_eq_some hcut
      refine ⟨hstart, ?_, changes_or_phantom_of_cutAt? hf habove hcut⟩
      have hle := hbound.1
      simp only [Length.le_def, Length.lt_def, Length.ext_iff] at *
      omega
  · intro x hx hlt hchange
    have hcut : ∃ p, p ∈ Clearing.cuts q.kind q.area (c.startOf q) (c.visible q) ∧ p ≤ x := by
      rcases hchange with hchange | hphantom
      · obtain ⟨f, hf, habove, p, hp, hpx⟩ := exists_cutAt?_le_of_changes h hx hchange
        exact ⟨p, (mem_cuts_iff h hkind).2 ⟨f, hf, habove, hp⟩, hpx⟩
      · exact ⟨x, (mem_cuts_iff h hkind).2 (exists_cutAt?_of_phantom hx hphantom), le_refl x⟩
    obtain ⟨p, hp, hpx⟩ := hcut
    have hle := hbound.2 p hp
    simp only [Length.le_def, Length.lt_def] at *
    omega

theorem cutEnd_of_belowAll (h : c.BelowAll q) : c.cutEnd q = c.stopOf q := by
  have hnone : Clearing.cuts q.kind q.area (c.startOf q) (c.visible q) = [] := by
    unfold BelowAll at h
    cases hvisible : c.visible q with
    | nil => cases q.kind <;> rfl
    | cons last rest =>
      rw [hvisible] at h
      exact Clearing.cuts_cons_of_above (h last rfl)
  rw [cutEnd, hnone, List.foldl_nil]

/-- Among floats, the height of an answer is that of the range as the walk leaves it. -/
theorem blockSize_answer {t : Clearing} (h : t.blockEnd = c.stopOf q) :
    (c.answer q (t.cutAll (Clearing.cuts q.kind q.area (c.startOf q) (c.visible q)))).rect.blockSize =
      if c.cutEnd q = .greatest then .greatest else c.cutEnd q - c.startOf q := by
  have hcut : (t.cutAll (Clearing.cuts q.kind q.area (c.startOf q) (c.visible q))).blockEnd =
      c.cutEnd q := by rw [Clearing.cutAll, h, cutEnd]
  rw [← hcut]
  rfl

/-- Among floats, the height of an answer reaches to where the walk leaves the block end. -/
theorem spans_answer {t : Clearing} (h : t.blockEnd = c.stopOf q) :
    Spans (c.startOf q) (c.cutEnd q) (c.answer q
      (t.cutAll (Clearing.cuts q.kind q.area (c.startOf q) (c.visible q)))).rect.blockSize := by
  rw [blockSize_answer h]
  split
  · next hopen => exact .inr ⟨hopen, rfl⟩
  · exact .inl rfl

/-- Below all floats, the height of an answer is the one that was asked for. -/
theorem spans_content (hblock : c.BlockExact q) (hbelow : c.BelowAll q) :
    Spans (c.startOf q) (c.cutEnd q) q.blockSize := by
  rw [cutEnd_of_belowAll hbelow]
  by_cases hopen : q.blockSize = .greatest
  · exact .inr ⟨if_pos hopen, hopen⟩
  · left
    have hstop := hblock.stop hopen
    have := q.blockSize.lower
    have := q.blockSize.upper
    apply Length.ext
    rw [Length.units_sub]
    omega

/-- A left float whose shape lies below its margin box. -/
def outlyingHistory : List Operation :=
  let triangle : ShapeOutside :=
    .shape (.polygon [⟨0, 150⟩, ⟨50, 150⟩, ⟨50, 200⟩]) .marginBox
  [.add { FloatBox.plain 1 .left with shapeOutside := triangle }
    ⟨.horizontalTb, 0, 0, 50, 100⟩ .horizontalTb ⟨200, 1000⟩]

/-- The context after `outlyingHistory`. -/
def outlying : FloatContext :=
  { new .horizontalTb with
    floats :=
      [⟨1, .left, ⟨0, 0, 50, 100⟩, 100, .least,
        some (.polygon ⟨[⟨0, 150⟩, ⟨50, 150⟩, ⟨50, 200⟩], false, 150, 200⟩)⟩] }

theorem outlying_reachable : outlying.Reachable := by
  have h : (new .horizontalTb).run outlyingHistory = .ok outlying := rfl
  exact (Reachable.new .horizontalTb).run h

theorem outlying_runsBounded (q : FlowQuery) : outlying.RunsBounded q :=
  runsBounded_of_floats (by simp [outlying, Shape.Bounded]) q

/-- A question for the band beside the margin box of the float of `outlying`. -/
def besideOutlying : FlowQuery where
  mode := .horizontalTb
  blockStart := 50
  blockSize := .greatest
  kind := .fromPoint
  area := .shapeOutside
  content := ⟨.horizontalTb, 0, 0, 200, 0⟩
  checkpoint := none
  container := ⟨200, 1000⟩

/-- A band from a point ends at the first line that other floats cross than its first line, or where
    an area starts that no line crosses, whichever comes first. So it ends at the first of these
    lines exactly if one of them comes before every area that no line crosses, or with it. -/
theorem Reachable.flowArea_band_end (h : c.Reachable) (hadmits : c.Admits q)
    (hcontent : q.content.mode = q.mode) (hkind : q.kind = .fromPoint) (hblock : c.BlockExact q)
    (hruns : c.RunsBounded q) :
    ∃ a y, c.flowArea q = .ok a ∧ Spans (c.startOf q) y a.rect.blockSize ∧
      FirstAfter (fun x => c.Changes q x ∨ c.Phantom q x) (c.startOf q) (c.stopOf q) y ∧
      (FirstAfter (c.Changes q) (c.startOf q) (c.stopOf q) y ↔
        ∀ x, c.startOf q < x → x < c.stopOf q → c.Phantom q x →
          ∃ z, c.startOf q < z ∧ z ≤ x ∧ c.Changes q z) := by
  have hfirst := cutEnd_firstAfter h hkind
  by_cases hbelow : c.BelowAll q
  · have ha := flowArea_eq_ok_iff.2 ⟨hadmits, .inl ⟨hbelow, rfl⟩⟩
    exact ⟨_, c.cutEnd q, ha, spans_content hblock hbelow, hfirst, hfirst.or_iff⟩
  · obtain ⟨t, ha, hend, -, -⟩ := h.flowArea_eq_answer hadmits hcontent hruns hbelow
    exact ⟨_, c.cutEnd q, ha, spans_answer hend, hfirst, hfirst.or_iff⟩

theorem outlying_flowArea_band_end :
    outlying.Reachable ∧ ∃ a y, outlying.flowArea besideOutlying = .ok a ∧
      Spans (outlying.startOf besideOutlying) y a.rect.blockSize ∧
      FirstAfter (fun x => outlying.Changes besideOutlying x ∨ outlying.Phantom besideOutlying x)
        (outlying.startOf besideOutlying) (outlying.stopOf besideOutlying) y := by
  have hadmits : outlying.Admits besideOutlying := ⟨by decide, by decide, by decide, by decide⟩
  have hblock : outlying.BlockExact besideOutlying := ⟨rfl, fun hsize => absurd rfl hsize⟩
  obtain ⟨a, y, ha, hspans, hfirst, -⟩ :=
    outlying_reachable.flowArea_band_end hadmits rfl rfl hblock (outlying_runsBounded _)
  exact ⟨outlying_reachable, a, y, ha, hspans, hfirst⟩

/-- No line crosses the shape of the float of `outlying`, yet the band beside the float ends where
    the shape starts. -/
theorem outlying_band_cut :
    outlying.Reachable ∧ outlying.Admits besideOutlying ∧ outlying.BlockExact besideOutlying ∧
      ¬∃ a y, outlying.flowArea besideOutlying = .ok a ∧
        Spans (outlying.startOf besideOutlying) y a.rect.blockSize ∧
        FirstAfter (outlying.Changes besideOutlying) (outlying.startOf besideOutlying)
          (outlying.stopOf besideOutlying) y := by
  refine ⟨outlying_reachable, ⟨by decide, by decide, by decide, by decide⟩,
    ⟨rfl, fun hsize => absurd rfl hsize⟩, ?_⟩
  rintro ⟨a, y, ha, hspans, hend, -⟩
  have hanswer : outlying.flowArea besideOutlying =
      .ok ⟨⟨.horizontalTb, 0, 50, 200, 100⟩, false, false⟩ := rfl
  cases hanswer.symm.trans ha
  have hnever : ∀ x, ¬outlying.Changes besideOutlying x := by
    intro x hchange
    obtain ⟨f, hf, hne⟩ := changes_iff.1 hchange
    cases List.mem_singleton.1 hf
    have hcross : ∀ y : Length, ¬((150 : Length) ≤ y ∧ y < (100 : Length)) := by
      intro y
      rw [Length.le_def, Length.lt_def]
      change ¬(150 ≤ y.units ∧ y.units < 100)
      omega
    exact hne ⟨fun hx => absurd (PlacedFloat.crosses_line.1 hx.2) (hcross _),
      fun hx => absurd (PlacedFloat.crosses_line.1 hx.2) (hcross _)⟩
  rcases hend with rfl | ⟨-, -, hchange⟩
  · rcases hspans with hsize | ⟨-, hsize⟩
    · exact absurd hsize (by decide)
    · exact absurd hsize (by decide)
  · exact hnever y hchange

end FloatContext

end FloatLayout
