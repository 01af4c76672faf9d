import FloatLayout.Proofs.Edges
import FloatLayout.Proofs.Outermost

/-!
# Edges of pixel areas

The edge of an image in a band is found by halving, from the first run that reaches into the band
on. A longer band shows a longer part of the same list. When the runs stand in order and do not
overlap, this part holds exactly the runs that reach below the start of the band and do not start
below its end.

## Main definitions

- `PixelRun.stop`, `PixelRun.far`: the far edges of a run, without their checks.
- `PixelArea.firstReaching_induction`: induction along a search by halving.
- `PixelArea.Stacked`: the runs stand in order and do not overlap.
- `PixelArea.outside_edge_iff`: the edge of a stacked area in a band, by all its runs.
- `PixelArea.edge_split`: a band shows what its parts show.
-/

namespace FloatLayout

variable {side : LineSide} {band : Band} {p x x₁ x₂ start mid stop₁ stop₂ target : Length}

namespace PixelRun

variable {r : PixelRun}

/-- The block-end edge. -/
def stop (r : PixelRun) : Length := .clamp (r.y.units + r.height)

/-- The edge on a line side. -/
def far (r : PixelRun) : LineSide → Length
  | .left => r.x
  | .right => .clamp (r.x.units + r.width)

theorem holds_eq (h : r.StopFits) (target : Length) :
    r.holds target = .ok (decide (r.y ≤ target ∧ target < r.stop)) := by
  have hbottom : r.bottom = .ok r.stop :=
    bind_eq_ok_iff.2 ⟨_, Word.checked_eq_ok h, rfl⟩
  unfold holds
  by_cases hstart : r.y ≤ target
  · rw [if_pos hstart, hbottom]
    simp only [hstart, true_and]
    rfl
  · rw [if_neg hstart]
    simp only [hstart, false_and, decide_false]
    rfl

/-- A run that does not start at the end of the range of lengths ends behind its start. -/
theorem y_lt_stop (hheight : 0 < r.height) (hy : r.y < .greatest) : r.y < r.stop := by
  have := r.y.lower
  rw [Length.lt_def, Length.units_greatest] at hy
  rw [Length.lt_def, stop, Length.units_clamp]
  omega

theorem lineEdge_eq (h : r.Bounded) (side : LineSide) : r.lineEdge side = .ok (r.far side) := by
  cases side with
  | left => rfl
  | right => exact bind_eq_ok_iff.2 ⟨_, Word.checked_eq_ok h.1, rfl⟩

end PixelRun

namespace PixelArea

variable {a : PixelArea} {low high i : Nat}

/-- The runs that show in a band when the search for the first one gives `first`. -/
def shown (a : PixelArea) (first : Nat) (band : Band) : List PixelRun :=
  (a.runs.toList.drop first).takeWhile (·.y ≤ band.stop)

theorem edge_eq_ok_iff :
    a.edge side band = .ok x ↔ band.start ≤ band.stop ∧
      ∃ first, firstReaching a.runs band.start 0 a.runs.size = .ok first ∧
        (a.shown first band).foldlM
          (fun found run => return side.outer found (← run.lineEdge side)) side.innermost =
            .ok x := by
  unfold edge
  rw [require_bind_eq_ok_iff, bind_eq_ok_iff]
  rfl

theorem edge_outside_of_le (h₁ : a.edge side ⟨start, stop₁⟩ = .ok x₁)
    (h₂ : a.edge side ⟨start, stop₂⟩ = .ok x₂) (hle : stop₁ ≤ stop₂) : side.Outside x₂ x₁ := by
  obtain ⟨-, first, hfirst, h₁⟩ := edge_eq_ok_iff.1 h₁
  obtain ⟨-, first', hfirst', h₂⟩ := edge_eq_ok_iff.1 h₂
  cases hfirst.symm.trans hfirst'
  obtain ⟨hout, hruns⟩ := (LineSide.outside_foldlM_iff h₂).1 (.refl side x₂)
  refine (LineSide.outside_foldlM_iff h₁).2 ⟨hout, fun r hr => hruns r ?_⟩
  refine takeWhile_subset_takeWhile (fun b hb => ?_) hr
  exact decide_eq_true (le_trans (of_decide_eq_true hb) hle)

/-- A search looks at one run between its bounds and stops there, or goes on behind it or before
    it. -/
theorem exists_firstReaching_eq {runs : Array PixelRun} (hfits : ∀ r ∈ runs, r.StopFits)
    (hhigh : high ≤ runs.size) (hlt : low < high) :
    ∃ middle, ∃ hmiddle : middle < runs.size, (low ≤ middle ∧ middle < high) ∧
      ∀ target, firstReaching runs target low high =
        if runs[middle].y ≤ target ∧ target < runs[middle].stop then .ok middle
        else if runs[middle].y < target then firstReaching runs target (middle + 1) high
        else firstReaching runs target low middle := by
  have hmiddle : low + (high - low) / 2 < runs.size := by omega
  refine ⟨_, hmiddle, ⟨by omega, by omega⟩, fun target => ?_⟩
  rw [firstReaching, if_pos hlt]
  dsimp only
  rw [Array.getElem?_eq_getElem hmiddle]
  dsimp only
  rw [PixelRun.holds_eq (hfits _ (Array.getElem_mem hmiddle))]
  by_cases hholds : runs[low + (high - low) / 2].y ≤ target ∧
      target < runs[low + (high - low) / 2].stop
  · rw [decide_eq_true hholds, if_pos hholds]
    rfl
  · rw [decide_eq_false hholds, if_neg hholds]
    rfl

theorem firstReaching_of_le {runs : Array PixelRun} (hle : high ≤ low) (target : Length) :
    firstReaching runs target low high = .ok high := by
  rw [firstReaching, if_neg (Nat.not_lt.2 hle)]
  rfl

/-- A property of the bounds of a search holds of all bounds if it holds where no run is left between
    them, and wherever the search looks at a run and it holds of the bounds behind that run and of
    those before it. -/
@[elab_as_elim] theorem firstReaching_induction {runs : Array PixelRun}
    (hfits : ∀ r ∈ runs, r.StopFits) {motive : (low high : Nat) → high ≤ runs.size → Prop}
    (done : ∀ low high hhigh, high ≤ low → motive low high hhigh)
    (look : ∀ low high hhigh middle, (hmiddle : middle < runs.size) → (hlow : low ≤ middle) →
      (hhigh' : middle < high) →
      (∀ target, firstReaching runs target low high =
        if runs[middle].y ≤ target ∧ target < runs[middle].stop then .ok middle
        else if runs[middle].y < target then firstReaching runs target (middle + 1) high
        else firstReaching runs target low middle) →
      motive (middle + 1) high hhigh → motive low middle (Nat.le_of_lt hmiddle) →
      motive low high hhigh)
    (low high : Nat) (hhigh : high ≤ runs.size) : motive low high hhigh := by
  induction hspan : high - low using Nat.strongRecOn generalizing low high with
  | ind span ih =>
    rcases Nat.lt_or_ge low high with hlt | hge
    · obtain ⟨middle, hmiddle, hbetween, heq⟩ := exists_firstReaching_eq hfits hhigh hlt
      exact look low high hhigh middle hmiddle hbetween.1 hbetween.2 heq
        (ih _ (by omega) (middle + 1) high hhigh rfl)
        (ih _ (by omega) low middle (Nat.le_of_lt hmiddle) rfl)
    · exact done low high hhigh hge

/-- A search takes the same way through runs that hold and precede its target alike. -/
theorem firstReaching_map {runs : Array PixelRun} {f : PixelRun → PixelRun} {target' : Length}
    (hholds : ∀ r ∈ runs, (f r).holds target' = r.holds target)
    (hy : ∀ r ∈ runs, (f r).y < target' ↔ r.y < target) (low high : Nat) :
    firstReaching (runs.map f) target' low high = firstReaching runs target low high := by
  induction hspan : high - low using Nat.strongRecOn generalizing low high with
  | ind span ih =>
    unfold firstReaching
    split
    · next hlt =>
      dsimp only
      rw [Array.getElem?_map]
      cases hrun : runs[low + (high - low) / 2]? with
      | none => rfl
      | some run =>
        have hmem := Array.mem_of_getElem? hrun
        have hlower := ih _ (by omega) (low + (high - low) / 2 + 1) high rfl
        have hupper := ih _ (by omega) low (low + (high - low) / 2) rfl
        simp only [Option.map_some, hlower, hupper, hholds run hmem, hy run hmem]
    · rfl

/-- The runs stand in order and do not overlap. -/
structure Stacked (a : PixelArea) : Prop where
  bounded : ∀ r ∈ a.runs, r.Bounded
  y_lt_stop : ∀ r ∈ a.runs, r.y < r.stop
  stop_le_y : a.runs.toList.Pairwise fun r r' => r.stop ≤ r'.y

namespace Stacked

theorem stop_le_y_getElem (h : a.Stacked) {i j : Nat} (hj : j < a.runs.size) (hij : i < j) :
    a.runs[i].stop ≤ a.runs[j].y :=
  List.pairwise_iff_getElem.1 h.stop_le_y i j (by simpa using Nat.lt_trans hij hj)
    (by simpa using hj) hij

theorem stop_le_stop (h : a.Stacked) {i j : Nat} (hj : j < a.runs.size) (hij : i < j) :
    a.runs[i].stop ≤ a.runs[j].stop :=
  le_trans (h.stop_le_y_getElem hj hij)
    (le_of_lt (h.y_lt_stop _ (Array.getElem_mem hj)))

/-- The search finds the first run of a stacked area that reaches below the target: what lies before
    the bounds of the search stays above it, and what lies behind them reaches below. -/
theorem firstReaching_spec (h : a.Stacked) (hhigh : high ≤ a.runs.size)
    (hfirst : firstReaching a.runs target low high = .ok i)
    (habove : ∀ j (hj : j < a.runs.size), j < low → a.runs[j].stop ≤ target)
    (hbelow : ∀ j (hj : j < a.runs.size), high ≤ j → target < a.runs[j].stop) :
    (∀ j (hj : j < a.runs.size), j < i → a.runs[j].stop ≤ target) ∧
      ∀ j (hj : j < a.runs.size), i ≤ j → target < a.runs[j].stop := by
  have hfits : ∀ r ∈ a.runs, r.StopFits := fun r hr => (h.bounded r hr).stopFits
  induction low, high, hhigh using firstReaching_induction hfits with
  | done low high hhigh hge =>
    rw [firstReaching_of_le hge] at hfirst
    cases hfirst
    exact ⟨fun j hj hlow => habove j hj (by omega), hbelow⟩
  | look low high hhigh middle hmiddle hlow hhigh' heq hbehind hbefore =>
    have hends : a.runs[middle].y ≤ target →
        ∀ j (hj : j < a.runs.size), j < middle → a.runs[j].stop ≤ target :=
      fun hy j hj hlt => le_trans (h.stop_le_y_getElem hmiddle hlt) hy
    have hreaches : target < a.runs[middle].stop →
        ∀ j (hj : j < a.runs.size), middle ≤ j → target < a.runs[j].stop := by
      intro hstop j hj hle
      rcases Nat.eq_or_lt_of_le hle with rfl | hlt
      · exact hstop
      · exact lt_of_lt_of_le hstop (h.stop_le_stop hj hlt)
    rw [heq] at hfirst
    split at hfirst
    · next hholds =>
      cases hfirst
      exact ⟨hends hholds.1, hreaches hholds.2⟩
    · next hholds =>
      split at hfirst
      · next hy =>
        have hy := le_of_lt hy
        refine hbehind hfirst (fun j hj hlt => ?_) hbelow
        rcases Nat.eq_or_lt_of_le (Nat.le_of_lt_succ hlt) with rfl | hlt
        · exact not_lt.1 fun hstop => hholds ⟨hy, hstop⟩
        · exact hends hy j hj hlt
      · next hy =>
        have hstop := lt_of_le_of_lt (not_lt.1 hy)
          (h.y_lt_stop _ (Array.getElem_mem hmiddle))
        exact hbefore hfirst habove (hreaches hstop)

/-- The runs that show in a band are those that reach below its start and do not start below its
    end. -/
theorem mem_shown_iff (h : a.Stacked)
    (hfirst : firstReaching a.runs band.start 0 a.runs.size = .ok i) {r : PixelRun} :
    r ∈ a.shown i band ↔ r ∈ a.runs ∧ band.start < r.stop ∧ r.y ≤ band.stop := by
  obtain ⟨habove, hbelow⟩ := h.firstReaching_spec (Nat.le_refl _) hfirst
    (fun j _ hlt => absurd hlt (Nat.not_lt_zero j)) (fun j hj hle => absurd hj (Nat.not_lt.2 hle))
  have hdrop : r ∈ a.runs.toList.drop i ↔ r ∈ a.runs ∧ band.start < r.stop := by
    rw [List.mem_drop_iff_getElem, Array.mem_iff_getElem]
    constructor
    · rintro ⟨j, hj, rfl⟩
      have hij : i + j < a.runs.size := by simpa [Nat.add_comm] using hj
      exact ⟨⟨i + j, hij, rfl⟩, hbelow (i + j) hij (Nat.le_add_right i j)⟩
    · rintro ⟨⟨j, hj, rfl⟩, hstop⟩
      have hij : i ≤ j := Nat.not_lt.1 fun hlt => not_lt.2 (habove j hj hlt) hstop
      have hindex : i + (j - i) = j := Nat.add_sub_cancel' hij
      refine ⟨j - i, by simpa [Nat.sub_add_cancel hij] using hj, ?_⟩
      simp only [hindex, Array.getElem_toList]
  have hsorted : (a.runs.toList.drop i).Pairwise
      fun r r' => r'.y ≤ band.stop → r.y ≤ band.stop := by
    refine (h.stop_le_y.imp_of_mem fun {r r'} hr _ hle hstop => ?_).sublist (List.drop_sublist _ _)
    have hlt := h.y_lt_stop r (Array.mem_toList_iff.1 hr)
    exact le_trans (le_of_lt (lt_of_lt_of_le hlt hle)) hstop
  rw [shown, mem_takeWhile_iff_of_pairwise hsorted, hdrop, and_assoc]

/-- The edge of a stacked area in a band is the outermost of the edges of all its runs in it. -/
theorem outside_edge_iff (h : a.Stacked) (hx : a.edge side band = .ok x) :
    side.Outside p x ↔ ∀ r ∈ a.runs, band.start < r.stop → r.y ≤ band.stop →
      side.Outside p (r.far side) := by
  obtain ⟨-, first, hfirst, hx⟩ := edge_eq_ok_iff.1 hx
  rw [LineSide.outside_foldlM_iff hx, and_iff_right (LineSide.outside_innermost side p)]
  constructor
  · intro hshown r hr hstop hy
    obtain ⟨y, hedge, hout⟩ := hshown r ((h.mem_shown_iff hfirst).2 ⟨hr, hstop, hy⟩)
    cases (PixelRun.lineEdge_eq (h.bounded r hr) side).symm.trans hedge
    exact hout
  · intro hruns r hr
    obtain ⟨hr, hstop, hy⟩ := (h.mem_shown_iff hfirst).1 hr
    exact ⟨_, PixelRun.lineEdge_eq (h.bounded r hr) side, hruns r hr hstop hy⟩

/-- A band split in two at any line shows, in its two parts, the edge that it shows as a whole. -/
theorem edge_split (h : a.Stacked) (hx : a.edge side ⟨start, stop₂⟩ = .ok x)
    (hx₁ : a.edge side ⟨start, mid⟩ = .ok x₁) (hx₂ : a.edge side ⟨mid, stop₂⟩ = .ok x₂)
    (hmid : start ≤ mid) (hmid' : mid ≤ stop₂) : x = side.outer x₁ x₂ := by
  refine LineSide.eq_of_outside_iff side fun p => ?_
  rw [LineSide.outside_outer_iff, h.outside_edge_iff hx, h.outside_edge_iff hx₁,
    h.outside_edge_iff hx₂]
  constructor
  · intro hruns
    constructor
    · exact fun r hr hstop hy => hruns r hr hstop (le_trans hy hmid')
    · exact fun r hr hstop hy => hruns r hr (lt_of_le_of_lt hmid hstop) hy
  · rintro ⟨hfirst, hlast⟩ r hr hstop hy
    by_cases hr' : r.y ≤ mid
    · exact hfirst r hr hstop hr'
    · exact hlast r hr (lt_of_le_of_lt (le_of_lt (not_le.1 hr'))
        (h.y_lt_stop r hr)) hy

end Stacked

end PixelArea

end FloatLayout
