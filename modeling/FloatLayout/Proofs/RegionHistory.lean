import FloatLayout.Proofs.BaseDirection
import FloatLayout.Script.RegionScript
import Mathlib.Data.Set.Card

/-!
# Float regions over a run

A store of float regions keeps differences from border boxes, and is read in writing modes that need
not be the ones it was written in. What comes out is the physical region stored last, whatever
happened to the regions of other boxes.

## Main definitions

- `Logical.Rect.grown`: a border box grown by its difference from a region.
- `RegionStore.Keeps`: a store holds the differences between two families of rectangles.
- `RegionScript.after`: the store after a run of steps.
- `RegionScript.lastStored`, `RegionScript.regionOf`: the region that a run leaves known for a box.
- `RegionScript.get_after`: what a store answers after a run.

## Design notes

A region that is the border box itself has no entry in the store. Its difference would be zero, and
a rectangle grown by zero is the rectangle, so that a store can be read as if it had an entry for
every box.
-/

namespace FloatLayout

-- ════════════════════════════════════════════════════════════════════════
-- Growing a border box
-- ════════════════════════════════════════════════════════════════════════

/-- A rectangle grown by its difference from another one is the other one, in every mode. -/
theorem grow_between (m : WritingMode) (inner outer : Rect Int) (container : Size Int) :
    (Logical.Rect.ofPhysical m inner container).grow (.ofPhysical m (.between inner outer)) =
      .ofPhysical m outer container := by
  have hmore : inner.more (.between inner outer) = outer := by
    simp only [Rect.more, Sides.between, Sides.horizontal, Sides.vertical, Rect.right, Rect.bottom]
    congr 1 <;> omega
  rw [grow_ofPhysical, hmore]

namespace Logical.Rect

variable {m : WritingMode} {inner outer : FloatLayout.Rect Length}
  {container : FloatLayout.Size Length} {region : Rect Length}

/-- A border box, seen in a mode and grown by its difference from a region. -/
def grown (m : WritingMode) (inner outer : FloatLayout.Rect Length)
    (container : FloatLayout.Size Length) : Rect Length :=
  (ofPhysical m inner container).grow (.ofPhysical m (.between inner outer))

/-- A conversion to the page did not come back into the range of lengths. -/
def ToPhysicalExact (r : Rect Length) (container : FloatLayout.Size Length) : Prop :=
  (r.toPhysical container).units = r.units.toPhysical container.units

/-- A border box was converted and grown by its difference from a region, and converted back,
    without coming back into the range of lengths. -/
structure GrownExact (m : WritingMode) (inner outer : FloatLayout.Rect Length)
    (container : FloatLayout.Size Length) : Prop where
  grown : (grown m inner outer container).units =
    (ofPhysical m inner.units container.units).grow
      (.ofPhysical m (.between inner.units outer.units))
  physical : (Rect.grown m inner outer container).ToPhysicalExact container

theorem GrownExact.units_eq (h : GrownExact m inner outer container) :
    (Rect.grown m inner outer container).units = ofPhysical m outer.units container.units :=
  h.grown.trans (grow_between m inner.units outer.units container.units)

/-- A border box grown by its difference from a region is the region, seen on the page. -/
theorem GrownExact.toPhysical_eq (h : GrownExact m inner outer container) :
    (Rect.grown m inner outer container).toPhysical container = outer := by
  apply FloatLayout.Rect.units_inj
  rw [h.physical, h.units_eq, toPhysical_ofPhysical]

/-- A border box grown by its difference from a region is the region itself, in its own mode. -/
theorem GrownExact.eq_region
    (h : GrownExact region.mode inner (region.toPhysical container) container)
    (hregion : region.ToPhysicalExact container) :
    Rect.grown region.mode inner (region.toPhysical container) container = region := by
  apply units_inj
  rw [h.units_eq, hregion]
  exact ofPhysical_toPhysical container.units region.units

theorem between_self (r : FloatLayout.Rect Length) : Sides.between r r = ⟨0, 0, 0, 0⟩ := by
  simp only [Sides.between, Length.sub_self]

theorem grow_zero (r : Rect Length) (m : WritingMode) :
    r.grow (.ofPhysical m ⟨0, 0, 0, 0⟩) = r := by
  simp only [grow, Margin.ofPhysical, Margin.inlineStartEnd, Margin.blockStartEnd, ite_self,
    Length.sub_zero, Length.add_zero]

/-- A border box that is its own region is not grown. -/
theorem grown_self (m : WritingMode) (r : FloatLayout.Rect Length)
    (container : FloatLayout.Size Length) : grown m r r container = ofPhysical m r container := by
  rw [grown, between_self, grow_zero]

end Logical.Rect

-- ════════════════════════════════════════════════════════════════════════
-- Stores
-- ════════════════════════════════════════════════════════════════════════

namespace RegionStore

variable {s : RegionStore} {m : WritingMode} {box : FloatBox} {inner outer : Nat → Rect Length}
  {region : Logical.Rect Length}

theorem find?_cons (id id' : Nat) (difference : Sides Length) (rest : List (Nat × Sides Length)) :
    find? ⟨(id, difference) :: rest⟩ id' =
      if id' = id then some difference else find? ⟨rest⟩ id' := by
  simp only [find?, List.lookup_cons]
  by_cases hid : id' = id
  · rw [if_pos hid, beq_iff_eq.2 hid]
  · rw [if_neg hid, beq_eq_false_iff_ne.2 hid]

theorem find?_erase (s : RegionStore) (id id' : Nat) :
    (s.erase id).find? id' = if id' = id then none else s.find? id' := by
  rcases s with ⟨entries⟩
  induction entries with
  | nil => exact (ite_self _).symm
  | cons entry rest ih =>
    rcases entry with ⟨first, difference⟩
    have herase : erase ⟨(first, difference) :: rest⟩ id =
        if first = id then erase ⟨rest⟩ id
        else ⟨(first, difference) :: (erase ⟨rest⟩ id).entries⟩ := by
      by_cases hfirst : first = id <;> simp [erase, hfirst]
    rw [herase, find?_cons]
    split
    · next hfirst =>
      subst hfirst
      by_cases hid : id' = first
      · rw [ih, if_pos hid, if_pos hid]
      · rw [ih, if_neg hid, if_neg hid, if_neg hid]
    · next hfirst =>
      rw [find?_cons]
      by_cases hid : id' = first
      · rw [if_pos hid, if_neg (by rwa [hid]), if_pos hid]
      · rw [if_neg hid, ih, if_neg hid]

theorem find?_insert (s : RegionStore) (id id' : Nat) (difference : Sides Length) :
    (s.insert id difference).find? id' = if id' = id then some difference else s.find? id' := by
  rw [insert, find?_cons]
  by_cases hid : id' = id
  · rw [if_pos hid, if_pos hid]
  · rw [if_neg hid, if_neg hid]
    exact (find?_erase s id id').trans (if_neg hid)

theorem mem_map_fst_iff (s : RegionStore) (id : Nat) :
    id ∈ s.entries.map Prod.fst ↔ s.find? id ≠ none := by
  simp [find?, List.lookup_eq_none_iff]

/-- A store holds, for every box, the difference of its region from its border box, and it has an
    entry for none but those that differ. -/
structure Keeps (s : RegionStore) (inner outer : Nat → Rect Length) : Prop where
  nodup : (s.entries.map Prod.fst).Nodup
  find?_eq : ∀ id, s.find? id =
    if outer id = inner id then none else some (.between (inner id) (outer id))

theorem Keeps.empty (inner : Nat → Rect Length) : empty.Keeps inner inner where
  nodup := List.nodup_nil
  find?_eq _ := (if_pos rfl).symm

theorem Keeps.get_eq (h : s.Keeps inner outer) (m : WritingMode) (container : Size Length)
    (hbox : box.rect = inner box.id) :
    s.get m box container = .ok (.grown m (inner box.id) (outer box.id) container) := by
  rw [get, h.find?_eq, hbox]
  by_cases hsame : outer box.id = inner box.id
  · rw [if_pos hsame, hsame, Logical.Rect.grown_self]
    rfl
  · rw [if_neg hsame]
    exact require_bind_eq_ok_iff.2 ⟨rfl, require_bind_eq_ok_iff.2 ⟨rfl, rfl⟩⟩

theorem Keeps.erase (h : s.Keeps inner outer) (id : Nat) :
    (s.erase id).Keeps inner (Function.update outer id (inner id)) where
  nodup := (List.filter_sublist.map _).nodup h.nodup
  find?_eq id' := by
    rw [find?_erase, h.find?_eq]
    by_cases hid : id' = id
    · subst hid
      simp
    · simp [hid]

theorem Keeps.insert (h : s.Keeps inner outer) {id : Nat} {r : Rect Length} (hr : r ≠ inner id) :
    (s.insert id (.between (inner id) r)).Keeps inner (Function.update outer id r) where
  nodup := by
    have herase := (h.erase id).nodup
    refine List.nodup_cons.2 ⟨?_, herase⟩
    simp [RegionStore.erase]
  find?_eq id' := by
    rw [find?_insert, h.find?_eq]
    by_cases hid : id' = id
    · subst hid
      simp [hr]
    · simp [hid]

/-- Storing a region makes it the region of its box and of no other one. -/
theorem Keeps.put (h : s.Keeps inner outer) (container : Size Length) (hmode : region.mode = m)
    (hbox : box.rect = inner box.id) :
    ∃ next, s.put m box region container = .ok next ∧
      next.Keeps inner (Function.update outer box.id (region.toPhysical container)) := by
  refine ⟨_, require_bind_eq_ok_iff.2 ⟨hmode, rfl⟩, ?_⟩
  rw [hbox]
  by_cases hsame : region.toPhysical container = inner box.id
  · rw [if_pos hsame, hsame]
    exact h.erase box.id
  · rw [if_neg hsame]
    exact h.insert hsame

theorem put_eq_error (s : RegionStore) (box : FloatBox) (container : Size Length)
    (hmode : region.mode ≠ m) : s.put m box region container = .error .modeMismatch := by
  rw [put, Logical.expectMode, require_of_not hmode]
  rfl

/-- There are as many entries as boxes whose region differs from their border box. -/
theorem Keeps.encard_eq (h : s.Keeps inner outer) :
    {id | outer id ≠ inner id}.encard = s.size := by
  have hmem : ∀ id, id ∈ s.entries.map Prod.fst ↔ outer id ≠ inner id := by
    intro id
    rw [mem_map_fst_iff, h.find?_eq]
    by_cases hsame : outer id = inner id <;> simp [hsame]
  have hset : {id | outer id ≠ inner id} = (s.entries.map Prod.fst).toFinset := by
    ext id
    simp only [Set.mem_ofPred_eq, List.coe_toFinset, hmem]
  rw [hset, Set.encard_coe_eq_coe_finsetCard, List.toFinset_card_of_nodup h.nodup, List.length_map]
  rfl

end RegionStore

-- ════════════════════════════════════════════════════════════════════════
-- Runs
-- ════════════════════════════════════════════════════════════════════════

namespace RegionScript

variable {steps others : List Step} {inner : Nat → Rect Length} {container : Size Length}

/-- The store after a run of steps. A step that fails changes nothing, and the run goes on. -/
def after (s : RegionStore) (steps : List Step) : RegionStore :=
  steps.foldl (fun s next => (step s next).1) s

/-- The box that a step is about. -/
def Step.id : Step → Nat
  | get _ box _ => box.id
  | put _ box _ _ => box.id
  | erase id => id

/-- The region known for a box after a step, if `last` was known before it. -/
def Step.keep (id : Nat) (last : Option (Logical.Rect Length)) :
    Step → Option (Logical.Rect Length)
  | get _ _ _ => last
  | put mode box region _ => if box.id = id ∧ region.mode = mode then some region else last
  | erase id' => if id' = id then none else last

/-- The region stored last for a box, unless it was erased since. -/
def lastStored (id : Nat) (steps : List Step) : Option (Logical.Rect Length) :=
  steps.foldl (Step.keep id) none

/-- Where a box has its region on the page: where it was stored last, or at its border box. -/
def regionOf (inner : Nat → Rect Length) (container : Size Length) (steps : List Step) (id : Nat) :
    Rect Length :=
  ((lastStored id steps).map (·.toPhysical container)).getD (inner id)

/-- The regions of a run are all stored in one container, and no border box changes. -/
def Steady (inner : Nat → Rect Length) (container : Size Length) (steps : List Step) : Prop :=
  ∀ mode box region size, .put mode box region size ∈ steps →
    box.rect = inner box.id ∧ size = container

theorem lastStored_append (id : Nat) (steps : List Step) (next : Step) :
    lastStored id (steps ++ [next]) = next.keep id (lastStored id steps) :=
  List.foldl_append

theorem regionOf_get (mode : WritingMode) (box : FloatBox) (size : Size Length) :
    regionOf inner container (steps ++ [.get mode box size]) = regionOf inner container steps := by
  funext id
  rw [regionOf, lastStored_append, Step.keep, regionOf]

theorem regionOf_erase (id : Nat) :
    regionOf inner container (steps ++ [.erase id]) =
      Function.update (regionOf inner container steps) id (inner id) := by
  funext id'
  rw [regionOf, lastStored_append, Step.keep]
  by_cases hid : id' = id
  · subst hid
    simp
  · rw [if_neg (Ne.symm hid), Function.update_of_ne hid, regionOf]

theorem regionOf_put (mode : WritingMode) (box : FloatBox) (region : Logical.Rect Length)
    (size : Size Length) :
    regionOf inner container (steps ++ [.put mode box region size]) =
      if region.mode = mode then
        Function.update (regionOf inner container steps) box.id (region.toPhysical container)
      else regionOf inner container steps := by
  funext id
  rw [regionOf, lastStored_append, Step.keep]
  by_cases hmode : region.mode = mode
  · rw [if_pos hmode]
    by_cases hid : id = box.id
    · subst hid
      simp [hmode]
    · rw [if_neg (fun h => hid h.1.symm), Function.update_of_ne hid, regionOf]
  · rw [if_neg (fun h => hmode h.2), if_neg hmode, regionOf]

/-- The store after a run holds the regions that were stored last. -/
theorem keeps_after (h : Steady inner container steps) :
    (after .empty steps).Keeps inner (regionOf inner container steps) := by
  induction steps using List.reverseRecOn with
  | nil => exact .empty inner
  | append_singleton steps next ih =>
    have hkeeps := ih fun mode box region size hput =>
      h mode box region size (List.mem_append_left _ hput)
    have hafter : after .empty (steps ++ [next]) = (step (after .empty steps) next).1 :=
      List.foldl_append
    rw [hafter]
    cases next with
    | get mode box size =>
      rw [regionOf_get]
      exact hkeeps
    | erase id =>
      rw [regionOf_erase]
      exact hkeeps.erase id
    | put mode box region size =>
      obtain ⟨hbox, rfl⟩ := h mode box region size (by simp)
      rw [regionOf_put]
      by_cases hmode : region.mode = mode
      · obtain ⟨next, hput, hnext⟩ := hkeeps.put size hmode hbox
        rw [if_pos hmode, step, hput]
        exact hnext
      · rw [if_neg hmode, step, RegionStore.put_eq_error _ box size hmode]
        exact hkeeps

/-- A step leaves alone what is stored for other boxes. -/
theorem find?_step (s : RegionStore) {next : Step} {id : Nat} (h : next.id ≠ id) :
    (step s next).1.find? id = s.find? id := by
  cases next with
  | get mode box size => rfl
  | erase id' => exact (RegionStore.find?_erase s id' id).trans (if_neg (Ne.symm h))
  | put mode box region size =>
    by_cases hmode : region.mode = mode
    · have hput : s.put mode box region size = .ok _ := require_bind_eq_ok_iff.2 ⟨hmode, rfl⟩
      rw [step, hput]
      by_cases hsame : region.toPhysical size = box.rect
      · rw [if_pos hsame]
        exact (RegionStore.find?_erase s box.id id).trans (if_neg (Ne.symm h))
      · rw [if_neg hsame]
        exact (RegionStore.find?_insert s box.id id _).trans (if_neg (Ne.symm h))
    · rw [step, RegionStore.put_eq_error s box size hmode]

theorem find?_after (s : RegionStore) {id : Nat} (h : ∀ next ∈ others, next.id ≠ id) :
    (after s others).find? id = s.find? id := by
  induction others generalizing s with
  | nil => rfl
  | cons next rest ih =>
    obtain ⟨hnext, hrest⟩ := List.forall_mem_cons.1 h
    exact (ih _ hrest).trans (find?_step s hnext)

/-- Regions of boxes whose border boxes do not change are stored in one container, read and erased
    in any order, each in a writing mode of its own. What is read for a box is the region stored
    last or else the border box, seen on the page, and it is that region itself in the mode in which
    it was stored. Steps for other boxes change nothing of it. There are as many entries as boxes
    whose region differs from their border box. -/
theorem get_after (h : Steady inner container steps) :
    let s := after .empty steps
    let outer := regionOf inner container steps
    (∀ mode box, box.rect = inner box.id →
      Logical.Rect.GrownExact mode box.rect (outer box.id) container →
        ∃ region, s.get mode box container = .ok region ∧ region.mode = mode ∧
          region.toPhysical container = outer box.id ∧
          ∀ last, lastStored box.id steps = some last → last.mode = mode →
            last.ToPhysicalExact container → region = last) ∧
      (∀ others box, (∀ next ∈ others, next.id ≠ box.id) → ∀ mode size,
        (after s others).get mode box size = s.get mode box size) ∧
      {id | outer id ≠ inner id}.encard = s.size := by
  intro s outer
  have hkeeps : s.Keeps inner outer := keeps_after h
  refine ⟨?_, ?_, hkeeps.encard_eq⟩
  · intro mode box hbox hexact
    refine ⟨_, hkeeps.get_eq mode container hbox, rfl, ?_, ?_⟩
    · rw [← hbox]
      exact hexact.toPhysical_eq
    · rintro last hlast rfl hphysical
      have houter : outer box.id = last.toPhysical container := by
        simp only [outer, regionOf, hlast, Option.map_some, Option.getD_some]
      rw [houter] at hexact ⊢
      rw [← hbox]
      exact hexact.eq_region hphysical
  · intro others box hothers mode size
    rw [RegionStore.get, RegionStore.get, find?_after s hothers]

/-- A box of one border box under any name. -/
def shelved (id : Nat) : FloatBox := { FloatBox.plain id .left with rect := ⟨10, 20, 30, 40⟩ }

/-- A run that stores regions of two boxes in three modes. One is stored in a mode that is not its
    own, one is erased, and one is the border box. -/
def shelving : List Step :=
  let rl := WritingMode.ofProperties .verticalRl .ltr
  let lr := WritingMode.ofProperties .sidewaysLr .rtl
  [.put .horizontalTb (shelved 3) ⟨.horizontalTb, 0, 0, 10, 10⟩ ⟨100, 100⟩,
    .put lr (shelved 4) ⟨lr, 0, 0, 10, 20⟩ ⟨100, 100⟩, .erase 4,
    .put rl (shelved 3) ⟨rl, 15, 52, 50, 40⟩ ⟨100, 100⟩,
    .put rl (shelved 3) ⟨lr, 0, 0, 10, 20⟩ ⟨100, 100⟩, .get lr (shelved 3) ⟨100, 100⟩,
    .put lr (shelved 4) ⟨lr, 20, 10, 40, 30⟩ ⟨100, 100⟩]

/-- The region stored from right to left is read from left to right and in its own mode. -/
theorem shelving_get_after :
    let s := after .empty shelving
    let rl := WritingMode.ofProperties .verticalRl .ltr
    let lr := WritingMode.ofProperties .sidewaysLr .rtl
    (∃ region, s.get lr (shelved 3) ⟨100, 100⟩ = .ok region ∧ region.mode = lr ∧
        region.toPhysical ⟨100, 100⟩ = ⟨8, 15, 40, 50⟩) ∧
      s.get rl (shelved 3) ⟨100, 100⟩ = .ok ⟨rl, 15, 52, 50, 40⟩ ∧
      (after s [.erase 4]).get rl (shelved 3) ⟨100, 100⟩ = .ok ⟨rl, 15, 52, 50, 40⟩ ∧
      {id | regionOf (fun _ => ⟨10, 20, 30, 40⟩) ⟨100, 100⟩ shelving id ≠
        ⟨10, 20, 30, 40⟩}.encard = 1 := by
  intro s rl lr
  have hsteady : Steady (fun _ => ⟨10, 20, 30, 40⟩) ⟨100, 100⟩ shelving := by
    intro mode box region size hput
    simp only [shelving, List.mem_cons, Step.put.injEq, reduceCtorEq, List.not_mem_nil, false_or,
      or_false] at hput
    rcases hput with ⟨-, rfl, -, rfl⟩ | ⟨-, rfl, -, rfl⟩ | ⟨-, rfl, -, rfl⟩ | ⟨-, rfl, -, rfl⟩ |
      ⟨-, rfl, -, rfl⟩ <;> exact ⟨rfl, rfl⟩
  obtain ⟨hget, hothers, hsize⟩ := get_after hsteady
  obtain ⟨region, hregion, hmode, hphysical, -⟩ := hget lr (shelved 3) rfl ⟨rfl, rfl⟩
  obtain ⟨own, hown, -, -, hlast⟩ := hget rl (shelved 3) rfl ⟨rfl, rfl⟩
  cases hlast ⟨rl, 15, 52, 50, 40⟩ rfl rfl rfl
  refine ⟨⟨region, hregion, hmode, hphysical⟩, hown, ?_, hsize⟩
  exact (hothers [.erase 4] (shelved 3) (by decide) rl _).trans hown

end RegionScript

end FloatLayout
