import FloatLayout.Proofs.Checkpoint

/-!
# Trailing floats

Floats can be taken away again as long as they were placed last. The floats of the named boxes are
then gone and all others stand as they were, which makes it possible to place floats on trial. A
named float that another one was placed after cannot be taken away, and the attempt fails.

## Main definitions

- `FloatContext.Buried`: a float of a named box was placed before one of another box.
- `FloatContext.not_buried_iff`: the order of the list if no float is buried.
- `Operation.Places`: a change that at most places a float of a named box.
- `FloatContext.removeTrailing_after`: such changes are undone by taking the named floats away.
- `FloatContext.Reachable.removeTrailing_named`: what taking floats away does after any history.
-/

namespace FloatLayout

variable {c : FloatContext} {ids : List Nat} {operations : List Operation}

namespace FloatContext

-- ════════════════════════════════════════════════════════════════════════
-- Buried floats
-- ════════════════════════════════════════════════════════════════════════

/-- A float of a named box was placed before a float of another box. -/
def Buried (c : FloatContext) (ids : List Nat) : Prop :=
  ∃ f g, [f, g].Sublist c.inOrder ∧ f.id ∈ ids ∧ g.id ∉ ids

/-- No float is buried if those of the named boxes stand before all others in the list, which starts
    with the float placed last. -/
theorem not_buried_iff :
    ¬c.Buried ids ↔ c.floats.Pairwise fun g f => f.id ∈ ids → g.id ∈ ids := by
  rw [← List.pairwise_reverse, List.pairwise_iff_forall_sublist]
  constructor
  · intro h f g hsub hf
    exact Decidable.byContradiction fun hg => h ⟨f, g, hsub, hf, hg⟩
  · rintro h ⟨f, g, hsub, hf, hg⟩
    exact hg (h hsub hf)

instance (c : FloatContext) (ids : List Nat) : Decidable (c.Buried ids) :=
  decidable_of_iff (¬c.floats.Pairwise fun g f => f.id ∈ ids → g.id ∈ ids)
    ⟨fun h => Classical.byContradiction fun hnot => h (not_buried_iff.1 hnot),
      fun hburied h => not_buried_iff.2 h hburied⟩

theorem hasNone_removeTrailing_iff : (c.removeTrailing ids).HasNone ids ↔ ¬c.Buried ids := by
  rw [not_buried_iff]
  exact forall_mem_dropWhile_iff_pairwise

/-- Without buried floats, taking floats away leaves those of the other boxes. -/
theorem removeTrailing_eq (h : ¬c.Buried ids) :
    c.removeTrailing ids = { c with floats := c.floats.filter (·.id ∉ ids) } :=
  congrArg (fun floats => { c with floats })
    (dropWhile_eq_filter_of_pairwise (not_buried_iff.1 h))

theorem apply_removeTrailing (h : ¬c.Buried ids) :
    (Operation.removeTrailing ids).apply c =
      ({ c with floats := c.floats.filter (·.id ∉ ids) }, .ok ()) :=
  Prod.ext (removeTrailing_eq h) (require_of (hasNone_removeTrailing_iff.2 h))

theorem apply_removeTrailing_eq_error_iff :
    ((Operation.removeTrailing ids).apply c).2 = .error .notTrailing ↔ c.Buried ids := by
  constructor
  · intro hfault
    refine Decidable.byContradiction fun hnot => ?_
    rw [apply_removeTrailing hnot] at hfault
    cases hfault
  · intro hburied
    exact require_of_not fun hnone => hasNone_removeTrailing_iff.1 hnone hburied

end FloatContext

-- ════════════════════════════════════════════════════════════════════════
-- Floats placed on trial
-- ════════════════════════════════════════════════════════════════════════

/-- A change that places a float of a named box, or nothing if that fails. -/
def Operation.Places (ids : List Nat) : Operation → Prop
  | add box _ _ _ => box.id ∈ ids
  | translate _ _ | removeTrailing _ | rewind _ | mark _ | addDamage _ => False

theorem Operation.Places.apply_eq {operation : Operation} (h : operation.Places ids)
    (c : FloatContext) :
    ∃ placed, (∀ f ∈ placed, f.id ∈ ids) ∧
      (operation.apply c).1 = { c with floats := placed ++ c.floats } := by
  cases operation with
  | add box marginRect mode container =>
    rcases apply_add_eq_or c box marginRect mode container with hsame | ⟨side, f, hf, hplaced⟩
    · exact ⟨[], List.forall_mem_nil _, hsame⟩
    · obtain ⟨-, shape, rfl⟩ := PlacedFloat.place_eq_ok hf
      refine ⟨[_], fun g hg => ?_, hplaced⟩
      rw [List.mem_singleton.1 hg, PlacedFloat.follow_id]
      exact h
  | translate dx dy | removeTrailing ids | rewind checkpoint | mark m | addDamage range =>
    exact h.elim

namespace FloatContext

theorem after_of_places (h : ∀ operation ∈ operations, operation.Places ids) (c : FloatContext) :
    ∃ placed, (∀ f ∈ placed, f.id ∈ ids) ∧
      c.after operations = { c with floats := placed ++ c.floats } := by
  induction operations generalizing c with
  | nil => exact ⟨[], List.forall_mem_nil _, rfl⟩
  | cons operation rest ih =>
    obtain ⟨hfirst, hrest⟩ := List.forall_mem_cons.1 h
    obtain ⟨first, hids, happly⟩ := hfirst.apply_eq c
    obtain ⟨later, hids', hafter⟩ := ih hrest (operation.apply c).1
    refine ⟨later ++ first, ?_, ?_⟩
    · rw [List.forall_mem_append]
      exact ⟨hids', hids⟩
    · change (operation.apply c).1.after rest = _
      rw [hafter, happly, List.append_assoc]

/-- Floats of boxes that had none before are taken away again without a trace. -/
theorem removeTrailing_after (hnone : c.HasNone ids)
    (h : ∀ operation ∈ operations, operation.Places ids) :
    (c.after operations).removeTrailing ids = c := by
  obtain ⟨placed, hids, hafter⟩ := after_of_places h c
  have hrest : c.floats.dropWhile (·.id ∈ ids) = c.floats := by
    cases hfloats : c.floats with
    | nil => rfl
    | cons last rest =>
      have hlast : last.id ∉ ids := hnone last (hfloats ▸ List.mem_cons_self)
      exact List.dropWhile_cons_of_neg (by simpa using hlast)
  have hdrop : (placed ++ c.floats).dropWhile (·.id ∈ ids) = c.floats := by
    rw [List.dropWhile_append_of_pos fun f hf => decide_eq_true (hids f hf), hrest]
  rw [hafter]
  exact congrArg (fun floats => { c with floats }) hdrop

/-- Taking away the floats of the named boxes fails exactly if one of them was placed before a float
    of another box. Otherwise the floats of all other boxes stay as they were, in the same order and
    with marks that are right, and nothing else changes. So whatever is placed for boxes that had no
    floats, taking the floats of these boxes away leads back to where the history was before. -/
theorem Reachable.removeTrailing_named (h : c.Reachable) (ids : List Nat) :
    (((Operation.removeTrailing ids).apply c).2 = .error .notTrailing ↔ c.Buried ids) ∧
      (¬c.Buried ids →
        (Operation.removeTrailing ids).apply c =
            ({ c with floats := c.floats.filter (·.id ∉ ids) }, .ok ()) ∧
          WellMarked (c.floats.filter (·.id ∉ ids))) ∧
      ∀ operations, c.HasNone ids → (∀ operation ∈ operations, operation.Places ids) →
        (Operation.removeTrailing ids).apply (c.after operations) = (c, .ok ()) := by
  refine ⟨apply_removeTrailing_eq_error_iff, fun hburied => ⟨apply_removeTrailing hburied, ?_⟩,
    fun operations hnone hplaces => ?_⟩
  · have hkept : c.floats.dropWhile (·.id ∈ ids) = c.floats.filter (·.id ∉ ids) :=
      dropWhile_eq_filter_of_pairwise (not_buried_iff.1 hburied)
    exact h.wellMarked.suffix (hkept ▸ List.dropWhile_suffix _)
  · have hback := removeTrailing_after hnone hplaces
    have hgone : ((c.after operations).removeTrailing ids).HasNone ids := by
      rw [hback]
      exact hnone
    exact Prod.ext hback (require_of hgone)

/-- Two of three floats are taken away, by names in any order, some twice and one of no float. The
    first float cannot be taken away. Two floats placed on trial, beside a box that does not float,
    are taken away without a trace. -/
theorem refilled_removeTrailing_named :
    let place (id : Nat) (float : FloatValue) : Operation :=
      .add (.plain id float) ⟨.horizontalTb, 0, 50, 30, 20⟩ .horizontalTb ⟨200, 1000⟩
    (Operation.removeTrailing [3, 4, 9, 3]).apply refilled =
        ({ refilled with floats := [⟨1, .left, ⟨0, 0, 50, 100⟩, 100, .least, none⟩] }, .ok ()) ∧
      ((Operation.removeTrailing [1]).apply refilled).2 = .error .notTrailing ∧
      (refilled.after [place 5 .left, place 6 .none, place 5 .right]).floats.length = 5 ∧
      (Operation.removeTrailing [6, 5]).apply
          (refilled.after [place 5 .left, place 6 .none, place 5 .right]) =
        (refilled, .ok ()) := by
  intro place
  have hplaces : ∀ operation ∈ [place 5 .left, place 6 .none, place 5 .right],
      operation.Places [6, 5] := by
    rw [List.forall_mem_cons, List.forall_mem_cons, List.forall_mem_singleton]
    exact ⟨List.mem_cons_of_mem 6 List.mem_cons_self, List.mem_cons_self,
      List.mem_cons_of_mem 6 List.mem_cons_self⟩
  obtain ⟨-, hkeeps, -⟩ := refilled_reachable.removeTrailing_named [3, 4, 9, 3]
  obtain ⟨hfails, -, -⟩ := refilled_reachable.removeTrailing_named [1]
  obtain ⟨-, -, htrial⟩ := refilled_reachable.removeTrailing_named [6, 5]
  exact ⟨(hkeeps (by decide)).1, hfails.2 (by decide), rfl, htrial _ (by decide) hplaces⟩

end FloatContext

end FloatLayout
