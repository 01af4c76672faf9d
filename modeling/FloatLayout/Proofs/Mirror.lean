import FloatLayout.FloatContext.Clearance
import FloatLayout.Proofs.MirrorShape
import FloatLayout.Proofs.Totality

/-!
# Float contexts in a mirror

Left and right are treated alike. A question in a mirrored context, about the mirrored content area,
has the mirrored answer, and clearing the other side of it moves a box to the same position.

## Main definitions

- `Clearing.mirror`, `FloatContext.mirror`, `FlowQuery.mirror`: mirror images.
- `Clearing.walk_mirror`: the walk over mirrored floats leaves the mirrored space.
- `FloatContext.MirrorExact`: no sum in the question came back into the range of lengths.
- `FloatContext.flowArea_mirror`: the mirrored question has the mirrored answer.
-/

namespace FloatLayout

-- ════════════════════════════════════════════════════════════════════════
-- The walk
-- ════════════════════════════════════════════════════════════════════════

namespace Clearing

variable {kind : BandKind} {area : FloatArea} {start : Length} {s : Clearing}
  {floats : List PlacedFloat} {f : PlacedFloat}

/-- The mirror image of a space. -/
def mirror (s : Clearing) : Clearing := { s with left := -s.right, right := -s.left }

theorem push_mirror (s : Clearing) (side : LineSide) (edge : Length) :
    s.mirror.push side.opposite (-edge) = (s.push side edge).mirror := by
  cases side with
  | left =>
    by_cases h : s.left < edge
    · simp only [push, LineSide.opposite, mirror, Length.neg_lt_neg_iff, h, if_true]
    · simp only [push, LineSide.opposite, mirror, Length.neg_lt_neg_iff, h, if_false]
  | right =>
    by_cases h : edge < s.right
    · simp only [push, LineSide.opposite, mirror, Length.neg_lt_neg_iff, h, if_true]
    · simp only [push, LineSide.opposite, mirror, Length.neg_lt_neg_iff, h, if_false]

theorem narrow_mirror (h : f.Mirrors) :
    s.mirror.narrow kind area start f.mirror = (s.narrow kind area start f).map (·.mirror) := by
  have hedge : ∀ band, f.mirror.edge area f.mirror.side.opposite band =
      (f.edge area f.side.opposite band).map (- ·) := PlacedFloat.mirror_edge h f.side.opposite
  have hmeets : s.mirror.Meets start (f.blockStart area) (f.blockEnd area) ↔
      s.Meets start (f.blockStart area) (f.blockEnd area) := Iff.rfl
  unfold narrow
  simp only [PlacedFloat.mirror_isEmpty, PlacedFloat.mirror_blockStart,
    PlacedFloat.mirror_blockEnd, hmeets, hedge]
  split
  · rfl
  · split
    · rfl
    · split
      · cases kind with
        | fromPoint =>
          dsimp only
          cases f.edge area f.side.opposite ⟨start, start⟩ with
          | error fault => rfl
          | ok edge =>
            change Except.ok ((s.mirror.push f.side.opposite (-edge)).cut _) = _
            rw [push_mirror]
            rfl
        | withinHeight =>
          dsimp only
          change (f.edge area f.side.opposite ⟨start, s.blockEnd⟩).map (- ·) >>= _ = _
          cases f.edge area f.side.opposite ⟨start, s.blockEnd⟩ with
          | error fault => rfl
          | ok edge => exact congrArg Except.ok (s.push_mirror f.side edge)
      · rfl

theorem walk_mirror (h : ∀ f ∈ floats, f.Mirrors) :
    walk kind area start (floats.map (·.mirror)) s.mirror =
      (walk kind area start floats s).map (·.mirror) := by
  induction floats generalizing s with
  | nil => rfl
  | cons f rest ih =>
    have hfirst := h f List.mem_cons_self
    have hrest := fun s => ih (s := s) fun g hg => h g (List.mem_cons_of_mem f hg)
    rw [List.map_cons, walk, walk]
    by_cases habove : f.AllAbove start
    · rw [if_pos habove, if_pos ((f.mirror_allAbove start).2 habove)]
      rfl
    · rw [if_neg habove, if_neg (mt (f.mirror_allAbove start).1 habove), narrow_mirror hfirst]
      cases s.narrow kind area start f with
      | error fault => rfl
      | ok t => exact hrest t

end Clearing

-- ════════════════════════════════════════════════════════════════════════
-- Contexts
-- ════════════════════════════════════════════════════════════════════════

/-- Break marks with left and right exchanged. -/
def Breaks.mirror (b : Breaks) : Breaks :=
  ⟨b.pushedRight, b.pushedLeft, b.splitRight, b.splitLeft⟩

/-- Cleared sides with left and right exchanged. -/
def ClearSide.opposite : ClearSide → ClearSide
  | .none => .none
  | .left => .right
  | .right => .left
  | .both => .both

/-- The mirror image of a context. -/
def FloatContext.mirror (c : FloatContext) : FloatContext :=
  { c with
    offset := c.offset.mirror
    floats := c.floats.map (·.mirror)
    breaks := c.breaks.mirror }

/-- A question about the mirror image of its content area, for lines that run from left to right. -/
def FlowQuery.mirror (q : FlowQuery) : FlowQuery :=
  { q with content := { q.content with inlineStart := -q.content.inlineEnd } }

theorem sideEnd_mirror (side : LineSide) (floats : List PlacedFloat) :
    sideEnd side.opposite (floats.map (·.mirror)) = sideEnd side floats := by
  apply eq_of_forall_ge_iff
  intro p
  rw [sideEnd_le_iff, sideEnd_le_iff, List.forall_mem_map]
  have hside : ∀ f : PlacedFloat, f.mirror.side = side.opposite ↔ f.side = side := by
    intro f
    change f.side.opposite = side.opposite ↔ f.side = side
    cases f.side <;> cases side <;> decide
  simp only [hside]
  exact Iff.rfl

/-- Mirrored floats have the marks of their mirror images. -/
theorem WellMarked.mirror {floats : List PlacedFloat} (h : WellMarked floats) :
    WellMarked (floats.map (·.mirror)) := by
  intro g after hsuffix side
  obtain ⟨_ | ⟨f, rest⟩, hrest, hmap⟩ := List.suffix_map_iff.1 hsuffix
  · cases hmap
  · cases hmap
    have hmark : f.mirror.mark side = f.mark side.opposite := by cases side <;> rfl
    have hend := sideEnd_mirror side.opposite (f :: rest)
    rw [LineSide.opposite_opposite] at hend
    rw [hmark, h f rest hrest side.opposite]
    exact hend.symm

namespace FloatContext

variable {c : FloatContext} {q : FlowQuery} {a b : FlowArea}

theorem visible_mirror (c : FloatContext) (q : FlowQuery) :
    c.mirror.visible q.mirror = (c.visible q).map (·.mirror) := by
  unfold visible floatsAt
  cases hcheckpoint : q.checkpoint with
  | none => simp only [FlowQuery.mirror, hcheckpoint]; rfl
  | some p =>
    simp only [FlowQuery.mirror, hcheckpoint, mirror, List.length_map, List.map_drop]

theorem belowAll_mirror (c : FloatContext) (q : FlowQuery) :
    c.mirror.BelowAll q.mirror ↔ c.BelowAll q := by
  unfold BelowAll
  rw [visible_mirror]
  cases c.visible q with
  | nil => exact Iff.rfl
  | cons last rest =>
    simp only [List.map_cons, List.head?_cons, Option.mem_some_iff, forall_eq']
    exact last.mirror_allAbove _

theorem clearContinues_mirror (c : FloatContext) (side : ClearSide) :
    c.mirror.clearContinues side.opposite = c.clearContinues side := by
  cases side <;>
    simp [clearContinues, mirror, Breaks.mirror, ClearSide.opposite, ClearSide.clearsLeft,
      ClearSide.clearsRight, Bool.or_comm]

/-- Clearing the other side of a mirrored context moves a box to the same position. -/
theorem clear_mirror (c : FloatContext) (position : Length) (side : ClearSide)
    (placedOnly : Bool) :
    c.mirror.clear position side.opposite placedOnly = c.clear position side placedOnly := by
  have hhead : c.mirror.floats.head? = c.floats.head?.map (·.mirror) := List.head?_map
  unfold clear
  rw [clearContinues_mirror, hhead]
  split
  · rfl
  · cases c.floats.head? with
    | none => rfl
    | some last =>
      -- The greatest of three positions is found in another order when both sides are cleared.
      have hboth : ∀ x y z : Length, max (max x y) z = max (max x z) y := fun x y z => by
        simp only [Length.ext_iff, Length.units_max]
        omega
      cases side with
      | none => rfl
      | left => rfl
      | right => rfl
      | both => exact congrArg (· - c.offset.y) (hboth _ _ _)

/-- The mirror images of the content area and of the answer exist: the inline end of the content area
    is a length, and among floats the edges of the answer were not brought back into the range of
    lengths. -/
structure MirrorExact (c : FloatContext) (q : FlowQuery) : Prop where
  content : q.content.inlineEnd.units = q.content.inlineStart.units + q.content.inlineSize.units
  inline : ¬c.BelowAll q → c.InlineExact q

theorem contentEdge_mirror (hltr : q.content.mode.isLtr = true) (hexact : c.MirrorExact q)
    (side : LineSide) :
    c.mirror.contentEdge q.mirror side.opposite = -c.contentEdge q side := by
  cases side with
  | left =>
    have hend := hexact.content
    have := q.content.inlineStart.lower
    have := q.content.inlineStart.upper
    have hstart : q.mirror.content.inlineEnd = -q.content.inlineStart := by
      change -q.content.inlineEnd + q.content.inlineSize = _
      simp only [Length.ext_iff, Length.units_add, Length.units_neg]
      omega
    have hleft : q.content.lineLeft q.container = q.content.inlineStart := if_pos hltr
    have hright : q.mirror.content.lineRight q.container = q.mirror.content.inlineEnd := if_pos hltr
    change -c.offset.x + q.mirror.content.lineRight q.container =
      -(c.offset.x + q.content.lineLeft q.container)
    rw [hleft, hright, hstart, Length.neg_add]
  | right =>
    have hleft : q.mirror.content.lineLeft q.container = -q.content.inlineEnd := if_pos hltr
    have hright : q.content.lineRight q.container = q.content.inlineEnd := if_pos hltr
    change -c.offset.x + q.mirror.content.lineLeft q.container =
      -(c.offset.x + q.content.lineRight q.container)
    rw [hleft, hright, Length.neg_add]

theorem clearingOf_mirror (hltr : q.content.mode.isLtr = true) (hsize : 0 ≤ q.content.inlineSize)
    (hexact : c.MirrorExact q) : c.mirror.clearingOf q.mirror = (c.clearingOf q).mirror := by
  have hleft : c.mirror.contentEdge q.mirror .left = -c.contentEdge q .right :=
    contentEdge_mirror hltr hexact .right
  have hright : c.mirror.contentEdge q.mirror .right = -c.contentEdge q .left :=
    contentEdge_mirror hltr hexact .left
  rw [clearingOf_eq_of_nonneg hsize, clearingOf_eq_of_nonneg (q := q.mirror) hsize, hleft, hright]
  rfl

theorem Admits.mirror (h : c.Admits q) : c.mirror.Admits q.mirror := by
  rcases h with ⟨hmode, hblock, hinline, hcheckpoint⟩
  refine ⟨hmode, hblock, hinline, fun p hp => ?_⟩
  change p.count ≤ (c.floats.map (·.mirror)).length
  rw [List.length_map]
  exact hcheckpoint p hp

theorem runsBounded_of_mirrors (h : ∀ f ∈ c.visible q, f.Mirrors) : c.RunsBounded q := by
  intro f hf shape hshape
  have hmem : shape ∈ f.shape := by
    cases harea : q.area with
    | marginBox =>
      rw [harea] at hshape
      cases hshape
    | shapeOutside =>
      rw [harea] at hshape
      exact hshape
  have hmirrors := (h f hf).shape shape hmem
  cases shape with
  | pixels a => exact fun r hr => (hmirrors r hr).1
  | roundedBox b => trivial
  | ellipse e => trivial
  | polygon p => trivial

/-- An answer and the one to the mirrored question: lines start in the one where they end in the
    other. -/
structure Reflects (a b : FlowArea) : Prop where
  hasFloats : b.hasFloats = a.hasFloats
  isNegative : b.isNegative = a.isNegative
  inlineSize : b.rect.inlineSize = a.rect.inlineSize
  blockStart : b.rect.blockStart = a.rect.blockStart
  blockSize : b.rect.blockSize = a.rect.blockSize
  inlineStart : a.isNegative = false → b.rect.inlineStart = -a.rect.inlineEnd

/-- The area that a mirrored space leaves reflects the one that the space leaves. -/
theorem reflects_answer {s : Clearing} (hltr : q.mode.isLtr = true)
    (hsize : (s.right - s.left).units = s.right.units - s.left.units)
    (hleft : (s.left - c.offset.x).units = s.left.units - c.offset.x.units) :
    Reflects (c.answer q s) (c.mirror.answer q.mirror s.mirror) := by
  have hwidth : s.mirror.right - s.mirror.left = s.right - s.left := Length.neg_sub_neg _ _
  refine ⟨rfl, ?_, ?_, rfl, rfl, fun hopen => ?_⟩
  · exact congrArg (fun width : Length => decide (width < 0)) hwidth
  · exact congrArg (fun width : Length => max width 0) hwidth
  · have hopen : ¬s.right - s.left < 0 := of_decide_eq_false hopen
    have hstart : (c.answer q s).rect.inlineStart = s.left - c.offset.x := if_pos hltr
    have hstart' : (c.mirror.answer q.mirror s.mirror).rect.inlineStart =
        -s.right - -c.offset.x := if_pos hltr
    have hend : (c.answer q s).rect.inlineEnd =
        (c.answer q s).rect.inlineStart + max (s.right - s.left) 0 := rfl
    rw [hstart', hend, hstart]
    simp only [Length.ext_iff, Length.lt_def, Length.units_add, Length.units_sub, Length.units_neg,
      Length.units_max, Length.units_zero] at *
    omega

/-- Below all floats, the content area reflects its mirror image. -/
theorem exists_reflects_content (hadmits : c.Admits q) (hbelow : c.BelowAll q) :
    ∃ a b, c.flowArea q = .ok a ∧ c.mirror.flowArea q.mirror = .ok b ∧ Reflects a b := by
  have hbelow' := (belowAll_mirror c q).2 hbelow
  have ha := flowArea_eq_ok_iff.2 ⟨hadmits, .inl ⟨hbelow, rfl⟩⟩
  have hb := flowArea_eq_ok_iff.2 ⟨hadmits.mirror, .inl ⟨hbelow', rfl⟩⟩
  refine ⟨_, _, ha, hb, rfl, rfl, rfl, rfl, rfl, fun _ => congrArg (- ·) ?_⟩
  change q.content.inlineStart + q.content.inlineSize =
    q.content.inlineStart + max q.content.inlineSize 0
  rw [max_eq_left hadmits.inlineSize]

/-- Among floats, the walk leaves mirrored spaces, and their areas reflect each other. -/
theorem exists_reflects_answer (hmarks : WellMarked c.floats) (hadmits : c.Admits q)
    (hcontent : q.content.mode = q.mode) (hltr : q.mode.isLtr = true)
    (hmirrors : ∀ f ∈ c.visible q, f.Mirrors) (hexact : c.MirrorExact q) (hbelow : ¬c.BelowAll q) :
    ∃ a b, c.flowArea q = .ok a ∧ c.mirror.flowArea q.mirror = .ok b ∧ Reflects a b := by
  have hinline := hexact.inline hbelow
  have hbelow' := mt (belowAll_mirror c q).1 hbelow
  have hcontentLtr : q.content.mode.isLtr = true := by rw [hcontent, hltr]
  obtain ⟨t, ht, -, -, hedges⟩ := Clearing.scan_spec (c.clearingOf q)
    (edge_succeeds_of_counts hadmits.blockSize (runsBounded_of_mirrors hmirrors))
  have hfree : ∀ side, t.edgeOn side = c.freeEdge q side := fun side => by
    rw [hedges, clearingOf_edgeOn hadmits hinline, freeEdge]
  have hleft : t.left = c.freeEdge q .left := hfree .left
  have hright : t.right = c.freeEdge q .right := hfree .right
  have hwalk : Clearing.walk q.kind q.area (c.startOf q) (c.visible q) (c.clearingOf q) =
      .ok (t.cutAll (Clearing.cuts q.kind q.area (c.startOf q) (c.visible q))) := by
    rw [walk_visible (hmarks.suffix (visible_suffix c q)) hadmits.blockSize, ht]
    rfl
  have hwalk' : Clearing.walk q.kind q.area (c.startOf q) (c.mirror.visible q.mirror)
      (c.mirror.clearingOf q.mirror) =
        .ok (t.cutAll (Clearing.cuts q.kind q.area (c.startOf q) (c.visible q))).mirror := by
    rw [visible_mirror, clearingOf_mirror hcontentLtr hadmits.inlineSize hexact,
      Clearing.walk_mirror hmirrors, hwalk]
    rfl
  have ha := flowArea_eq_ok_iff.2 ⟨hadmits, .inr ⟨hbelow, hcontent, _, hwalk, rfl⟩⟩
  have hb := flowArea_eq_ok_iff.2 ⟨hadmits.mirror, .inr ⟨hbelow', hcontent, _, hwalk', rfl⟩⟩
  refine ⟨_, _, ha, hb, reflects_answer hltr ?_ ?_⟩
  · change (t.right - t.left).units = t.right.units - t.left.units
    rw [hleft, hright]
    exact hinline.size
  · change (t.left - c.offset.x).units = t.left.units - c.offset.x.units
    rw [hleft]
    exact hinline.ltr hltr

/-- Floats with shapes of three kinds, on both sides. -/
def alleyHistory : List Operation :=
  let corner : CornerRadius Length := ⟨10, 10⟩
  let triangle : ShapeOutside := .shape (.polygon [⟨70, 0⟩, ⟨0, 100⟩, ⟨70, 100⟩]) .marginBox
  let mask : AlphaMask := ⟨#[255, 255], 2, ⟨2, 1⟩⟩
  [.translate 5 10,
    .add { FloatBox.plain 1 .left with
        shapeOutside := .box .marginBox, radii := some ⟨corner, ⟨40, 40⟩, corner, corner⟩ }
      ⟨.horizontalTb, 0, 0, 50, 100⟩ .horizontalTb ⟨300, 1000⟩,
    .add { FloatBox.plain 2 .right with shapeOutside := triangle }
      ⟨.horizontalTb, 230, 0, 70, 100⟩ .horizontalTb ⟨300, 1000⟩,
    .add { FloatBox.plain 3 .left with
        shapeOutside := .image (.finite 0), rect := ⟨50, 0, 120, 60⟩, render := fun _ => some mask }
      ⟨.horizontalTb, 50, 0, 120, 60⟩ .horizontalTb ⟨300, 1000⟩]

/-- The context after `alleyHistory`. -/
def alley : FloatContext :=
  let corner : CornerRadius Length := ⟨10, 10⟩
  { new .horizontalTb with
    offset := ⟨5, 10⟩
    floats :=
      [⟨3, .left, ⟨55, 10, 120, 60⟩, 110, 110,
          some (.pixels ⟨#[⟨55, 10, 120, 60⟩], 10, 70⟩)⟩,
        ⟨2, .right, ⟨235, 10, 70, 100⟩, 110, 110,
          some (.polygon ⟨[⟨305, 10⟩, ⟨235, 110⟩, ⟨305, 110⟩], false, 10, 110⟩)⟩,
        ⟨1, .left, ⟨5, 10, 50, 100⟩, 110, .least,
          some (.roundedBox ⟨⟨5, 10, 50, 100⟩, some ⟨corner, ⟨40, 40⟩, corner, corner⟩⟩)⟩] }

theorem alley_reachable : alley.Reachable := by
  have h : (new .horizontalTb).run alleyHistory = .ok alley := by cbv
  exact (Reachable.new .horizontalTb).run h

/-- A question for the band between the rounded box and the triangle of `alley`. -/
def besideAlley : FlowQuery where
  mode := .horizontalTb
  blockStart := 70
  blockSize := .greatest
  kind := .fromPoint
  area := .shapeOutside
  content := ⟨.horizontalTb, 0, 0, 300, 0⟩
  checkpoint := none
  container := ⟨300, 1000⟩

/-- The mirror image of a context whose floats have correct marks is one too. A question in it, for
    lines from left to right, has the reflected answer of the question that it mirrors, and clearing
    the other side of it moves a box to the same position. -/
theorem flowArea_mirror (hmarks : WellMarked c.floats) (hadmits : c.Admits q)
    (hcontent : q.content.mode = q.mode) (hltr : q.mode.isLtr = true)
    (hmirrors : ∀ f ∈ c.visible q, f.Mirrors) (hexact : c.MirrorExact q) :
    WellMarked c.mirror.floats ∧
      (∃ a b, c.flowArea q = .ok a ∧ c.mirror.flowArea q.mirror = .ok b ∧ Reflects a b) ∧
      ∀ position side placedOnly,
        c.mirror.clear position side.opposite placedOnly = c.clear position side placedOnly := by
  refine ⟨hmarks.mirror, ?_, clear_mirror c⟩
  by_cases hbelow : c.BelowAll q
  · exact exists_reflects_content hadmits hbelow
  · exact exists_reflects_answer hmarks hadmits hcontent hltr hmirrors hexact hbelow

theorem alley_flowArea_mirror :
    ∃ a b, alley.flowArea besideAlley = .ok a ∧ a.rect.inlineStart = 50 ∧ a.rect.inlineEnd = 251 ∧
      alley.mirror.flowArea besideAlley.mirror = .ok b ∧ b.rect.inlineStart = -251 ∧
      Reflects a b := by
  have hadmits : alley.Admits besideAlley := ⟨by decide, by decide, by decide, by decide⟩
  have hmirrors : ∀ f ∈ alley.visible besideAlley, f.Mirrors := by
    intro f hf
    rcases List.mem_cons.1 hf with rfl | hf
    · refine ⟨rfl, fun shape hshape => ?_⟩
      cases hshape
      intro r hr
      cases List.mem_singleton.1 (Array.mem_toList_iff.2 hr)
      exact ⟨⟨by decide, by decide⟩, by decide, by decide⟩
    · rcases List.mem_cons.1 hf with rfl | hf
      · refine ⟨rfl, fun shape hshape => ?_⟩
        cases hshape
        trivial
      · cases List.mem_singleton.1 hf
        refine ⟨rfl, fun shape hshape => ?_⟩
        cases hshape
        rfl
  have hexact : alley.MirrorExact besideAlley :=
    ⟨rfl, fun _ => ⟨fun side => by cases side <;> rfl, rfl, fun _ => rfl, nofun⟩⟩
  obtain ⟨-, ⟨a, b, ha, hb, hreflects⟩, -⟩ :=
    flowArea_mirror alley_reachable.wellMarked hadmits rfl rfl hmirrors hexact
  have hband : alley.flowArea besideAlley =
      .ok ⟨⟨.horizontalTb, 50, 70, 201, 30⟩, true, false⟩ := rfl
  cases hband.symm.trans ha
  exact ⟨_, b, ha, rfl, rfl, hb, hreflects.inlineStart rfl, hreflects⟩

end FloatContext

end FloatLayout
