import FloatLayout.Proofs.BandEnd
import FloatLayout.Proofs.Placement

/-!
# Flow areas in both base directions

Lines that start at the other end still lie between the same floats. A question about a physical
content box gets areas that are the same on the page, whichever base direction it is asked in,
although each answer counts its inline start from the end where its lines start.

## Main definitions

- `FlowQuery.facing`: a question about a physical content box.
- `FloatContext.FacingExact`: no sum in the question came back into the range of lengths.
- `FloatContext.Reachable.flowArea_either_direction`: both answers are the same area.
-/

namespace FloatLayout

/-- A question about a physical content box, in the mode of a pair of properties. -/
def FlowQuery.facing (q : FlowQuery) (property : WritingModeProperty) (content : Rect Length)
    (direction : Direction) : FlowQuery :=
  { q with
    mode := .ofProperties property direction
    content := .ofPhysical (.ofProperties property direction) content q.container }

namespace FloatContext

variable {c : FloatContext} {q : FlowQuery} {property : WritingModeProperty} {content : Rect Length}

/-- In both base directions, converting the content box kept to the range of lengths, and so did, for
    a question among floats, its range, its edges and those of its answer. -/
structure FacingExact (c : FloatContext) (q : FlowQuery) (property : WritingModeProperty)
    (content : Rect Length) : Prop where
  box : ∀ direction,
    (Logical.Rect.ofPhysical (.ofProperties property direction) content q.container).units =
      .ofPhysical (.ofProperties property direction) content.units q.container.units
  block : ¬c.BelowAll q → c.BlockExact q
  inline : ¬c.BelowAll q → ∀ direction, c.InlineExact (q.facing property content direction)

theorem FacingExact.lineEdge_eq (h : c.FacingExact q property content) (side : LineSide) :
    (q.facing property content .rtl).content.units.lineEdge q.container.units side =
      (q.facing property content .ltr).content.units.lineEdge q.container.units side := by
  change (Logical.Rect.ofPhysical _ content q.container).units.lineEdge _ _ =
    (Logical.Rect.ofPhysical _ content q.container).units.lineEdge _ _
  rw [h.box, h.box, WritingMode.ofProperties_eq_facing property .rtl]
  exact lineEdge_facing _ _ _ _ _

theorem contentEdge_facing (h : c.FacingExact q property content) (hbelow : ¬c.BelowAll q)
    (side : LineSide) :
    c.contentEdge (q.facing property content .rtl) side =
      c.contentEdge (q.facing property content .ltr) side := by
  apply Length.ext
  rw [(h.inline hbelow .ltr).edge side, (h.inline hbelow .rtl).edge side]
  exact congrArg _ (h.lineEdge_eq side)

theorem clearingOf_facing (h : c.FacingExact q property content) (hbelow : ¬c.BelowAll q) :
    c.clearingOf (q.facing property content .rtl) =
      c.clearingOf (q.facing property content .ltr) := by
  rw [clearingOf_eq, clearingOf_eq, contentEdge_facing h hbelow, contentEdge_facing h hbelow]
  rfl

theorem freeEdge_facing (h : c.FacingExact q property content) (hbelow : ¬c.BelowAll q)
    (side : LineSide) :
    c.freeEdge (q.facing property content .rtl) side =
      c.freeEdge (q.facing property content .ltr) side := by
  unfold freeEdge
  rw [contentEdge_facing h hbelow]
  rfl

theorem Admits.facing (h : c.Admits (q.facing property content .ltr)) (direction : Direction) :
    c.Admits (q.facing property content direction) := by
  cases direction with
  | ltr => exact h
  | rtl =>
    rcases h with ⟨hmode, hblock, hinline, hcheckpoint⟩
    cases property <;> exact ⟨hmode, hblock, hinline, hcheckpoint⟩

/-- The two answers agree in all that does not depend on where lines start. -/
theorem answers_facing {a b : FlowArea} (h : c.FacingExact q property content)
    (ha : c.flowArea (q.facing property content .ltr) = .ok a)
    (hb : c.flowArea (q.facing property content .rtl) = .ok b) :
    b.rect.mode = a.rect.mode.facing .rtl ∧ b.hasFloats = a.hasFloats ∧
      b.isNegative = a.isNegative ∧ b.rect.inlineSize = a.rect.inlineSize ∧
      b.rect.blockStart = a.rect.blockStart ∧ b.rect.blockSize = a.rect.blockSize := by
  obtain ⟨-, ⟨habove, rfl⟩ | ⟨habove, -, s, hs, rfl⟩⟩ := flowArea_eq_ok_iff.1 ha
  · obtain ⟨-, ⟨-, rfl⟩ | ⟨hnot, -⟩⟩ := flowArea_eq_ok_iff.1 hb
    · cases property <;> exact ⟨rfl, rfl, rfl, rfl, rfl, rfl⟩
    · exact absurd habove hnot
  · obtain ⟨-, ⟨hyes, -⟩ | ⟨-, -, t, ht, rfl⟩⟩ := flowArea_eq_ok_iff.1 hb
    · exact absurd hyes habove
    · rw [clearingOf_facing h habove] at ht
      cases hs.symm.trans ht
      exact ⟨WritingMode.ofProperties_eq_facing property .rtl, rfl, rfl, rfl, rfl, rfl⟩

/-- The line-left edge of an answer below all floats is that of the content area. -/
theorem lineLeft_of_belowAll {a : FlowArea} (hcontent : q.content.mode = q.mode)
    (hbelow : c.BelowAll q) (ha : c.flowArea q = .ok a) :
    a.rect.units.lineLeft q.container.units = q.content.units.lineLeft q.container.units := by
  obtain ⟨hadmits, ⟨-, rfl⟩ | ⟨hnot, -⟩⟩ := flowArea_eq_ok_iff.1 ha
  · unfold FlowArea.make
    rw [max_eq_left hadmits.inlineSize, ← hcontent]
    rfl
  · exact absurd hbelow hnot

/-- Both answers have the same line-left edge. -/
theorem Reachable.lineLeft_facing {a b : FlowArea} (h : c.Reachable)
    (hadmits : c.Admits (q.facing property content .ltr)) (hruns : c.RunsBounded q)
    (hexact : c.FacingExact q property content)
    (ha : c.flowArea (q.facing property content .ltr) = .ok a)
    (hb : c.flowArea (q.facing property content .rtl) = .ok b) (hopen : a.isNegative = false) :
    b.rect.units.lineLeft q.container.units = a.rect.units.lineLeft q.container.units := by
  by_cases hbelow : c.BelowAll q
  · have hleft := lineLeft_of_belowAll (q := q.facing property content .ltr) rfl hbelow ha
    have hleft' := lineLeft_of_belowAll (q := q.facing property content .rtl) rfl hbelow hb
    exact hleft'.trans ((hexact.lineEdge_eq .left).trans hleft.symm)
  · have hblock : ∀ direction, c.BlockExact (q.facing property content direction) := fun _ =>
      ⟨(hexact.block hbelow).start, (hexact.block hbelow).stop⟩
    obtain ⟨a', ha', hdescribes⟩ :=
      h.exists_describes hadmits rfl (hblock .ltr) (hexact.inline hbelow .ltr) hruns
    obtain ⟨b', hb', hdescribes'⟩ :=
      h.exists_describes (hadmits.facing .rtl) rfl (hblock .rtl) (hexact.inline hbelow .rtl) hruns
    cases ha.symm.trans ha'
    cases hb.symm.trans hb'
    have hedges := hdescribes.isNegative_eq_false_iff.1 hopen
    have hleft := hdescribes.left (.inr hedges)
    have hleft' := hdescribes'.left
    rw [freeEdge_facing hexact hbelow, freeEdge_facing hexact hbelow] at hleft'
    exact Int.add_left_cancel ((hleft' (.inr hedges)).trans hleft.symm)

/-- The context with `turnedTriangle`. -/
def turned : FloatContext :=
  { new (.ofProperties .sidewaysLr .ltr) with offset := ⟨3, 10⟩, floats := [turnedTriangle] }

theorem turned_reachable : turned.Reachable := by
  have h : (new (.ofProperties .sidewaysLr .ltr)).run [.translate 3 10,
      .add framedTriangle (.ofPhysical (.ofProperties .sidewaysLr .ltr) ⟨20, 30, 100, 80⟩
        ⟨200, 1000⟩) (.ofProperties .sidewaysLr .ltr) ⟨200, 1000⟩] = .ok turned := rfl
  exact (Reachable.new _).run h

theorem turned_runsBounded (q : FlowQuery) : turned.RunsBounded q :=
  runsBounded_of_floats (by simp [turned, turnedTriangle, Shape.Bounded]) q

/-- A question for the band beside the triangle of `turned`. -/
def besideTurned : FlowQuery where
  mode := .ofProperties .sidewaysLr .ltr
  blockStart := 40
  blockSize := .greatest
  kind := .fromPoint
  area := .shapeOutside
  content := ⟨.ofProperties .sidewaysLr .ltr, 30, 0, 960, 200⟩
  checkpoint := none
  container := ⟨200, 1000⟩

/-- A question about a physical content box has an answer in both base directions. The answers agree
    about floats and in their sizes, and an area that is not negative is the same on the page. -/
theorem Reachable.flowArea_either_direction (h : c.Reachable)
    (hadmits : c.Admits (q.facing property content .ltr)) (hruns : c.RunsBounded q)
    (hexact : c.FacingExact q property content) :
    ∃ a b, c.flowArea (q.facing property content .ltr) = .ok a ∧
      c.flowArea (q.facing property content .rtl) = .ok b ∧ b.hasFloats = a.hasFloats ∧
      b.isNegative = a.isNegative ∧ b.rect.inlineSize = a.rect.inlineSize ∧
      b.rect.blockStart = a.rect.blockStart ∧ b.rect.blockSize = a.rect.blockSize ∧
      (a.isNegative = false →
        (a.rect.toPhysical q.container).units = a.rect.units.toPhysical q.container.units →
        (b.rect.toPhysical q.container).units = b.rect.units.toPhysical q.container.units →
        b.rect.toPhysical q.container = a.rect.toPhysical q.container) := by
  obtain ⟨a, ha⟩ := h.flowArea_succeeds hadmits rfl hruns
  obtain ⟨b, hb⟩ := h.flowArea_succeeds (hadmits.facing .rtl) rfl hruns
  obtain ⟨hmode, hfloats, hnegative, hinline, hstart, hsize⟩ := answers_facing hexact ha hb
  refine ⟨a, b, ha, hb, hfloats, hnegative, hinline, hstart, hsize, fun hopen hra hrb => ?_⟩
  have hleft := h.lineLeft_facing hadmits hruns hexact ha hb hopen
  apply Rect.units_inj
  rw [hra, hrb]
  exact toPhysical_congr .rtl _ hmode hleft (congrArg Length.units hinline)
    (congrArg Length.units hstart) (congrArg Length.units hsize)

/-- Lines that run upwards start at 30 from the bottom, and lines that run downwards at 46 from the
    top. -/
theorem turned_flowArea_either_direction :
    ∃ a b, turned.flowArea (besideTurned.facing .sidewaysLr ⟨0, 10, 200, 960⟩ .ltr) = .ok a ∧
      turned.flowArea (besideTurned.facing .sidewaysLr ⟨0, 10, 200, 960⟩ .rtl) = .ok b ∧
      a.rect.inlineStart = 30 ∧ b.rect.inlineStart = 46 ∧ a.hasFloats = true ∧
      b.rect.toPhysical ⟨200, 1000⟩ = a.rect.toPhysical ⟨200, 1000⟩ := by
  have hadmits : turned.Admits (besideTurned.facing .sidewaysLr ⟨0, 10, 200, 960⟩ .ltr) :=
    ⟨by decide, by decide, by decide, by decide⟩
  have hexact : turned.FacingExact besideTurned .sidewaysLr ⟨0, 10, 200, 960⟩ := by
    refine ⟨fun direction => by cases direction <;> rfl,
      fun _ => ⟨rfl, fun hsize => absurd rfl hsize⟩, fun _ direction => ?_⟩
    cases direction with
    | ltr => exact ⟨fun side => by cases side <;> rfl, rfl, fun _ => rfl, nofun⟩
    | rtl => exact ⟨fun side => by cases side <;> rfl, rfl, nofun, fun _ => rfl⟩
  obtain ⟨a, b, ha, hb, hfloats, -, -, -, -, hsame⟩ :=
    turned_reachable.flowArea_either_direction hadmits (turned_runsBounded _) hexact
  have hltr : turned.flowArea (besideTurned.facing .sidewaysLr ⟨0, 10, 200, 960⟩ .ltr) =
      .ok ⟨⟨.ofProperties .sidewaysLr .ltr, 30, 40, 924, 53⟩, true, false⟩ := rfl
  have hrtl : turned.flowArea (besideTurned.facing .sidewaysLr ⟨0, 10, 200, 960⟩ .rtl) =
      .ok ⟨⟨.ofProperties .sidewaysLr .rtl, 46, 40, 924, 53⟩, true, false⟩ := rfl
  cases hltr.symm.trans ha
  cases hrtl.symm.trans hb
  exact ⟨_, _, hltr, hrtl, rfl, rfl, hfloats, hsame rfl rfl rfl⟩

end FloatContext

end FloatLayout
