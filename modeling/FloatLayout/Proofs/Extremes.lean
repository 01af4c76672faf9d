import FloatLayout.Length
import Mathlib.Order.MinMax

/-!
# Extremes and fronts of lists

The linear order of lengths, the greatest and the least length of a list, as a fold over it computes
them, described by the bounds of the list, and the front of a list up to the first entry without a
condition.

## Main definitions

- `Length.foldl_max_le_iff`, `Length.le_foldl_min_iff`: the fold is the tightest bound.
- `Length.foldl_min_eq_or_mem`: the fold is attained.
- `mem_takeWhile_iff_of_pairwise`: the front of an ordered list holds all entries with a condition.
- `dropWhile_eq_filter_of_pairwise`: the rest of an ordered list holds all entries without it.
- `IsPartitionPoint`: the index that divides the entries with a condition from those without it.
- `head?_eq_some_iff_of_pairwise`, `getLast?_eq_some_iff_of_pairwise`: the ends of an ordered list.
-/

namespace FloatLayout.Length

/-- Lengths are in the order of their numbers of app units. -/
instance : LinearOrder Length where
  le_refl a := Int.le_refl a.units
  le_trans _ _ _ h h' := Int.le_trans h h'
  le_antisymm _ _ h h' := ext (Int.le_antisymm h h')
  lt_iff_le_not_ge _ _ := Int.lt_iff_le_and_not_ge
  le_total a b := Int.le_total a.units b.units
  toDecidableLE := inferInstance
  toDecidableLT := inferInstance
  toDecidableEq := inferInstance

theorem foldl_max_le_iff {l : List Length} {a p : Length} :
    l.foldl max a ≤ p ↔ a ≤ p ∧ ∀ b ∈ l, b ≤ p := by
  induction l generalizing a with
  | nil => simp
  | cons b l ih =>
    rw [List.foldl_cons, ih, max_le_iff, List.forall_mem_cons, and_assoc]

theorem le_foldl_min_iff {l : List Length} {a p : Length} :
    p ≤ l.foldl min a ↔ p ≤ a ∧ ∀ b ∈ l, p ≤ b := by
  induction l generalizing a with
  | nil => simp
  | cons b l ih =>
    rw [List.foldl_cons, ih, le_min_iff, List.forall_mem_cons, and_assoc]

/-- A fold that chooses one of two lengths at each step ends in its start or in an entry of the
    list. -/
theorem foldl_eq_or_mem {choose : Length → Length → Length}
    (h : ∀ a b, choose a b = a ∨ choose a b = b) (l : List Length) (a : Length) :
    l.foldl choose a = a ∨ l.foldl choose a ∈ l := by
  induction l generalizing a with
  | nil => exact .inl rfl
  | cons b l ih =>
    rw [List.foldl_cons, List.mem_cons]
    rcases ih (choose a b) with hfold | hmem
    · rw [hfold]
      exact (h a b).imp_right .inl
    · exact .inr (.inr hmem)

/-- The least length of a list with a start is the start or stands in the list. -/
theorem foldl_min_eq_or_mem (l : List Length) (a : Length) :
    l.foldl min a = a ∨ l.foldl min a ∈ l := foldl_eq_or_mem min_choice l a

end FloatLayout.Length

namespace FloatLayout

/-- A weaker condition takes at least as much from the front of a list. -/
theorem takeWhile_subset_takeWhile {α : Type} {P Q : α → Bool} {l : List α}
    (h : ∀ a, P a = true → Q a = true) : l.takeWhile P ⊆ l.takeWhile Q := by
  induction l with
  | nil => exact List.nil_subset _
  | cons b l ih =>
    rw [List.takeWhile_cons, List.takeWhile_cons]
    by_cases hb : P b = true
    · rw [if_pos hb, if_pos (h b hb)]
      exact List.cons_subset_cons b ih
    · rw [if_neg hb]
      exact List.nil_subset _

theorem takeWhile_congr {α : Type} {P Q : α → Bool} {l : List α} (h : ∀ a ∈ l, P a = Q a) :
    l.takeWhile P = l.takeWhile Q := by
  induction l with
  | nil => rfl
  | cons b l ih =>
    obtain ⟨hfirst, hrest⟩ := List.forall_mem_cons.1 h
    rw [List.takeWhile_cons, List.takeWhile_cons, hfirst, ih hrest]

/-- If a condition on an entry of a list carries over to the entries before it, the entries up to
    the first one without it are all that have it. -/
theorem mem_takeWhile_iff_of_pairwise {α : Type} {P : α → Prop} [DecidablePred P] {l : List α}
    (h : l.Pairwise fun a b => P b → P a) {a : α} : a ∈ l.takeWhile (P ·) ↔ a ∈ l ∧ P a := by
  induction l with
  | nil => simp
  | cons b l ih =>
    obtain ⟨hfirst, hrest⟩ := List.pairwise_cons.1 h
    rw [List.takeWhile_cons]
    by_cases hb : P b
    · rw [if_pos (decide_eq_true hb), List.mem_cons, List.mem_cons, ih hrest]
      constructor
      · rintro (rfl | ⟨ha, hP⟩)
        · exact ⟨.inl rfl, hb⟩
        · exact ⟨.inr ha, hP⟩
      · rintro ⟨rfl | ha, hP⟩
        · exact .inl rfl
        · exact .inr ⟨ha, hP⟩
    · rw [if_neg (by simpa using hb)]
      constructor
      · exact nofun
      · rintro ⟨ha, hP⟩
        rcases List.mem_cons.1 ha with rfl | ha
        · exact absurd hP hb
        · exact absurd (hfirst a ha hP) hb

/-- If a condition on an entry of a list carries over to the entries before it, the entries from the
    first one without it on are all that do not have it. -/
theorem dropWhile_eq_filter_of_pairwise {α : Type} {P : α → Prop} [DecidablePred P] {l : List α}
    (h : l.Pairwise fun a b => P b → P a) : l.dropWhile (P ·) = l.filter (¬P ·) := by
  induction l with
  | nil => rfl
  | cons b l ih =>
    obtain ⟨hfirst, hrest⟩ := List.pairwise_cons.1 h
    by_cases hb : P b
    · rw [List.dropWhile_cons, if_pos (decide_eq_true hb), ih hrest,
        List.filter_cons_of_neg (by simpa using hb)]
    · have hall : ∀ a ∈ b :: l, ¬P a :=
        List.forall_mem_cons.2 ⟨hb, fun a ha => mt (hfirst a ha) hb⟩
      rw [List.dropWhile_cons_of_neg (by simpa using hb),
        List.filter_eq_self.2 fun a ha => decide_eq_true (hall a ha)]

/-- No entry from the first one without a condition on has the condition exactly if it carries over
    to the entries before it. -/
theorem forall_mem_dropWhile_iff_pairwise {α : Type} {P : α → Prop} [DecidablePred P]
    {l : List α} : (∀ a ∈ l.dropWhile (P ·), ¬P a) ↔ l.Pairwise fun a b => P b → P a := by
  constructor
  · intro h
    induction l with
    | nil => exact .nil
    | cons b l ih =>
      by_cases hb : P b
      · rw [List.dropWhile_cons, if_pos (decide_eq_true hb)] at h
        exact List.pairwise_cons.2 ⟨fun _ _ _ => hb, ih h⟩
      · rw [List.dropWhile_cons_of_neg (by simpa using hb)] at h
        refine List.pairwise_iff_forall_sublist.2 fun {a a'} hsub hP => ?_
        exact absurd hP (h a' (hsub.subset (by simp)))
  · intro h a ha
    rw [dropWhile_eq_filter_of_pairwise h] at ha
    exact of_decide_eq_true (List.mem_filter.1 ha).2

/-- The first `k` entries of a list have a condition, and none of the others has it. This is the `k`
    that a search by halving finds. -/
structure IsPartitionPoint {α : Type} (P : α → Prop) (l : List α) (k : Nat) : Prop where
  le_length : k ≤ l.length
  before : ∀ a ∈ l.take k, P a
  behind : ∀ a ∈ l.drop k, ¬P a

/-- If a condition on an entry of a list carries over to the entries before it, the index of the
    first one without it is a partition point. -/
theorem exists_isPartitionPoint {α : Type} {P : α → Prop} [DecidablePred P] {l : List α}
    (h : l.Pairwise fun a b => P b → P a) : ∃ k, IsPartitionPoint P l k := by
  refine ⟨l.findIdx (!P ·), List.findIdx_le_length, ?_, ?_⟩
  · rw [← List.takeWhile_eq_take_findIdx_not]
    exact fun a ha => ((mem_takeWhile_iff_of_pairwise h).1 ha).2
  · rw [← List.dropWhile_eq_drop_findIdx_not]
    exact forall_mem_dropWhile_iff_pairwise.2 h

/-- The first entry of a list in a strict order is the one that stands before all others. -/
theorem head?_eq_some_iff_of_pairwise {α : Type} {r : α → α → Prop} {l : List α}
    (hasymm : ∀ {a b}, r a b → ¬r b a) (h : l.Pairwise r) {a : α} :
    l.head? = some a ↔ a ∈ l ∧ ∀ b ∈ l, b = a ∨ r a b := by
  cases l with
  | nil => simp
  | cons first rest =>
    obtain ⟨hfirst, -⟩ := List.pairwise_cons.1 h
    rw [List.head?_cons, Option.some.injEq]
    constructor
    · rintro rfl
      exact ⟨List.mem_cons_self, List.forall_mem_cons.2 ⟨.inl rfl, fun b hb => .inr (hfirst b hb)⟩⟩
    · rintro ⟨ha, hbefore⟩
      rcases List.mem_cons.1 ha with rfl | ha
      · rfl
      · rcases hbefore first List.mem_cons_self with heq | hlt
        · exact heq
        · exact absurd hlt (hasymm (hfirst a ha))

/-- The last entry of a list in a strict order is the one that stands behind all others. -/
theorem getLast?_eq_some_iff_of_pairwise {α : Type} {r : α → α → Prop} {l : List α}
    (hasymm : ∀ {a b}, r a b → ¬r b a) (h : l.Pairwise r) {a : α} :
    l.getLast? = some a ↔ a ∈ l ∧ ∀ b ∈ l, b = a ∨ r b a := by
  have hreverse := head?_eq_some_iff_of_pairwise (fun hba => hasymm hba) (List.pairwise_reverse.2 h)
    (a := a)
  simpa only [List.head?_reverse, List.mem_reverse] using hreverse

end FloatLayout
