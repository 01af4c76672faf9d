import FloatLayout.Proofs.BandHeight
import FloatLayout.Proofs.PixelEdge
import FloatLayout.Proofs.PolygonEdge

/-!
# Widths of ranges

A range without height sees exactly what a band from its point sees. A higher range sees more: all
floats that a lower one sees, and of each a part that reaches at least as far out, as long as no
shape has an arc. An arc may draw the edge of a float back in when the range grows past it.

## Main definitions

- `FlowQuery.fromPoint`: the question for the band from the start of a range.
- `Shape.Arcless`: a shape without elliptic corners.
- `PlacedFloat.edge_outside_of_le`: the edge of a float in a higher range.
- `FloatContext.freeEdge_within`: the edge that floats leave in a higher range.
-/

namespace FloatLayout

variable {area : FloatArea} {side : LineSide} {start stop stop₁ stop₂ x x₁ x₂ : Length}

/-- No side of a shape is drawn in by an elliptic corner. -/
def Shape.Arcless : Shape → Prop
  | .roundedBox b => b.radii = none
  | .ellipse _ => False
  | .polygon _ | .pixels _ => True

theorem Shape.edge_outside_of_le {shape : Shape} (harc : shape.Arcless)
    (h₁ : shape.edge side ⟨start, stop₁⟩ = .ok x₁) (h₂ : shape.edge side ⟨start, stop₂⟩ = .ok x₂)
    (hle : stop₁ ≤ stop₂) : side.Outside x₂ x₁ := by
  cases shape with
  | roundedBox b =>
    have hnone : b.radii = none := harc
    simp only [edge, RoundedBox.edge, hnone] at h₁ h₂
    cases h₁
    cases h₂
    exact .refl side _
  | ellipse e => exact absurd harc id
  | polygon p => exact Polygon.edge_outside_of_le h₁ h₂ hle
  | pixels a => exact PixelArea.edge_outside_of_le h₁ h₂ hle

namespace PlacedFloat

variable {f : PlacedFloat}

theorem edge_outside_of_le (harc : ∀ shape ∈ f.areaShape area, shape.Arcless)
    (h₁ : f.edge area side ⟨start, stop₁⟩ = .ok x₁) (h₂ : f.edge area side ⟨start, stop₂⟩ = .ok x₂)
    (hle : stop₁ ≤ stop₂) : side.Outside x₂ x₁ := by
  cases hshape : f.areaShape area with
  | none =>
    unfold edge at h₁ h₂
    rw [hshape] at h₁ h₂
    cases h₁
    cases h₂
    exact .refl side _
  | some shape =>
    rw [edge_of_shape hshape] at h₁ h₂
    obtain ⟨y₁, hy₁, h₁⟩ := bind_eq_ok_iff.1 h₁
    obtain ⟨y₂, hy₂, h₂⟩ := bind_eq_ok_iff.1 h₂
    cases h₁
    cases h₂
    exact (Shape.edge_outside_of_le (harc shape hshape) hy₁ hy₂ hle).clip _

theorem Counts.of_le (h : f.Counts area ⟨start, stop₁⟩) (hle : stop₁ ≤ stop₂) :
    f.Counts area ⟨start, stop₂⟩ := by
  obtain ⟨hempty, hend, hstart⟩ := h
  refine ⟨hempty, hend, ?_⟩
  change _ < stop₁ ∨ _ = start ∧ start = stop₁ at hstart
  change _ < stop₂ ∨ _ = start ∧ start = stop₂
  simp only [Length.le_def, Length.lt_def, Length.ext_iff] at *
  omega

end PlacedFloat

/-- The question for the band from the start of a range of some height. -/
def FlowQuery.fromPoint (q : FlowQuery) (height : Length) : FlowQuery :=
  { q with kind := .fromPoint, blockSize := height }

/-- An area reaches no farther out than another one. An area whose edges cross has no inline size
    and keeps only the edge at which its lines start, so that is the edge it is compared by. -/
structure FlowArea.NoWider (a b : FlowArea) (container : Size Length) : Prop where
  left : a.rect.mode.isLtr = true ∨ a.isNegative = false →
    b.rect.units.lineEdge container.units .left ≤ a.rect.units.lineEdge container.units .left
  right : a.rect.mode.isLtr = false ∨ a.isNegative = false →
    a.rect.units.lineEdge container.units .right ≤ b.rect.units.lineEdge container.units .right
  hasFloats : b.hasFloats = true → a.hasFloats = true

namespace FloatContext

variable {c : FloatContext} {q : FlowQuery} {height height₁ height₂ : Length}

theorem linesOf_within_zero (c : FloatContext) (q : FlowQuery) (height : Length) :
    c.linesOf (q.within 0) = c.linesOf (q.fromPoint height) := by
  have hstop : c.stopOf (q.within 0) = c.startOf q := by
    have hzero : (0 : Length) ≠ .greatest := by decide
    have := (c.startOf q).lower
    have := (c.startOf q).upper
    change (if (0 : Length) = .greatest then .greatest else c.startOf q + 0) = c.startOf q
    rw [if_neg hzero]
    apply Length.ext
    rw [Length.units_add, Length.units_zero]
    omega
  change (⟨c.startOf q, c.stopOf (q.within 0)⟩ : Band) = ⟨c.startOf q, c.startOf q⟩
  rw [hstop]

/-- A range without height leaves what a band from its point leaves. -/
theorem Reachable.flowArea_within_zero (h : c.Reachable) (hadmits : c.Admits q)
    (hcontent : q.content.mode = q.mode) (hruns : c.RunsBounded q) (hheight : 0 ≤ height) :
    ∃ a b, c.flowArea (q.fromPoint height) = .ok a ∧ c.flowArea (q.within 0) = .ok b ∧
      b.rect.inlineStart = a.rect.inlineStart ∧ b.rect.inlineSize = a.rect.inlineSize ∧
      b.hasFloats = a.hasFloats ∧ b.isNegative = a.isNegative := by
  have hband : c.Admits (q.fromPoint height) :=
    ⟨hadmits.mode, hheight, hadmits.inlineSize, hadmits.checkpoint⟩
  have hzero : c.Admits (q.within 0) := hadmits.within (le_refl 0)
  by_cases hbelow : c.BelowAll q
  · exact ⟨_, _, flowArea_eq_ok_iff.2 ⟨hband, .inl ⟨hbelow, rfl⟩⟩,
      flowArea_eq_ok_iff.2 ⟨hzero, .inl ⟨hbelow, rfl⟩⟩, rfl, rfl, rfl, rfl⟩
  · obtain ⟨t, ht, -, hnarrowed, hedges⟩ := h.flowArea_eq_answer hband hcontent hruns hbelow
    obtain ⟨t', ht', -, hnarrowed', hedges'⟩ := h.flowArea_eq_answer hzero hcontent hruns hbelow
    have hedge : ∀ side, t'.edgeOn side = t.edgeOn side := fun side => by
      rw [hedges, hedges', scannedEdge, scannedEdge, linesOf_within_zero c q height]
      cases side <;> rfl
    exact ⟨_, _, ht, ht', answer_congr (q := q.fromPoint height) (hnarrowed'.cutAll _)
      (hnarrowed.cutAll _) hedge⟩

theorem stopOf_within_le (hle : height₁ ≤ height₂) :
    c.stopOf (q.within height₁) ≤ c.stopOf (q.within height₂) := by
  change (if height₁ = .greatest then .greatest else c.startOf q + height₁ : Length) ≤
    (if height₂ = .greatest then .greatest else c.startOf q + height₂ : Length)
  by_cases hopen : height₂ = .greatest
  · rw [if_pos hopen]
    exact Length.le_greatest _
  · have hopen₁ : height₁ ≠ .greatest := by
      rintro rfl
      exact hopen (le_antisymm (Length.le_greatest _) hle)
    rw [if_neg hopen, if_neg hopen₁]
    rw [Length.le_def] at hle
    simp only [Length.le_def, Length.units_add]
    omega

/-- Floats without arcs leave no more of a higher range. -/
theorem freeEdge_within (hruns : c.RunsBounded q)
    (harc : ∀ f ∈ c.visible q, ∀ shape ∈ f.areaShape q.area, shape.Arcless)
    (hheight : 0 ≤ height₁) (hle : height₁ ≤ height₂) (side : LineSide) :
    side.opposite.Outside (c.freeEdge (q.within height₂) side)
      (c.freeEdge (q.within height₁) side) := by
  obtain ⟨hcontent, hfloats⟩ := LineSide.outside_foldl_outer_iff.1
    (LineSide.Outside.refl side.opposite (c.freeEdge (q.within height₂) side))
  refine LineSide.outside_foldl_outer_iff.2 ⟨hcontent, fun x hx => ?_⟩
  obtain ⟨f, hf, rfl, hcounts, hedge⟩ := mem_innerEdges_iff.1 hx
  have hstop := stopOf_within_le (c := c) (q := q) hle
  -- A float that the lower range sees is seen by the higher one, with an edge at least as far in.
  have hcounts' : f.Counts q.area (c.linesOf (q.within height₂)) := hcounts.of_le hstop
  obtain ⟨y, hy⟩ := edge_succeeds_of_counts (q := q.within height₂) (le_trans hheight hle)
    hruns f hf hcounts'
  exact (hfloats y (mem_innerEdges_iff.2 ⟨f, hf, rfl, hcounts', hy⟩)).trans
    (f.edge_outside_of_le (harc f hf) hedge hy hstop)

/-- Where the free edges of a question lie no farther out, so does the area that describes them. -/
theorem Describes.noWider {q₁ q₂ : FlowQuery} {a₁ a₂ : FlowArea} (h₁ : c.Describes q₁ a₁)
    (h₂ : c.Describes q₂ a₂) (hmode : q₂.mode = q₁.mode) (hcontainer : q₂.container = q₁.container)
    (hcontent : ∀ side, c.contentEdge q₂ side = c.contentEdge q₁ side)
    (hleft : c.freeEdge q₁ .left ≤ c.freeEdge q₂ .left)
    (hright : c.freeEdge q₂ .right ≤ c.freeEdge q₁ .right) : a₂.NoWider a₁ q₁.container := by
  have hopen := h₂.isNegative_eq_false_iff.1
  have hopen' : a₂.isNegative = false → c.freeEdge q₁ .left ≤ c.freeEdge q₁ .right :=
    fun hnegative => le_trans hleft (le_trans (hopen hnegative) hright)
  rw [Length.le_def] at hleft hright
  refine ⟨fun hside => ?_, fun hside => ?_, fun hfloats => ?_⟩
  · rw [h₂.mode] at hside
    have hedge₁ := h₁.left (hside.imp (hmode ▸ ·) hopen')
    have hedge₂ := h₂.left (hside.imp_right hopen)
    rw [hcontainer] at hedge₂
    omega
  · rw [h₂.mode] at hside
    have hedge₁ := h₁.right (hside.imp (hmode ▸ ·) hopen')
    have hedge₂ := h₂.right (hside.imp_right hopen)
    rw [hcontainer] at hedge₂
    omega
  · have hmoved := h₁.hasFloats.1 hfloats
    rw [h₂.hasFloats, hcontent, hcontent]
    simp only [Length.lt_def] at *
    omega

/-- A left float whose shape grows from line to line, beside a right float. -/
def funnelHistory : List Operation :=
  let triangle : ShapeOutside :=
    .shape (.polygon [⟨0, 0⟩, ⟨150, 100⟩, ⟨0, 100⟩]) .marginBox
  [.add { FloatBox.plain 1 .left with shapeOutside := triangle }
      ⟨.horizontalTb, 0, 0, 150, 100⟩ .horizontalTb ⟨200, 1000⟩,
    .add (.plain 2 .right) ⟨.horizontalTb, 100, 0, 100, 100⟩ .horizontalTb ⟨200, 1000⟩]

/-- The context after `funnelHistory`. -/
def funnel : FloatContext :=
  { new .horizontalTb with
    floats :=
      [⟨2, .right, ⟨100, 0, 100, 100⟩, 100, 100, none⟩,
        ⟨1, .left, ⟨0, 0, 150, 100⟩, 100, .least,
          some (.polygon ⟨[⟨0, 0⟩, ⟨150, 100⟩, ⟨0, 100⟩], false, 0, 100⟩)⟩] }

theorem funnel_reachable : funnel.Reachable := by
  have h : (new .horizontalTb).run funnelHistory = .ok funnel := rfl
  exact (Reachable.new .horizontalTb).run h

theorem funnel_shapes :
    ∀ f ∈ funnel.floats, ∀ shape ∈ f.shape, shape.Bounded ∧ shape.Arcless := by
  intro f hf shape hshape
  rcases List.mem_cons.1 hf with rfl | hf
  · cases hshape
  · cases List.mem_singleton.1 hf
    cases hshape
    exact ⟨trivial, trivial⟩

/-- A question for the space between the floats of `funnel`, from their first line on. -/
def besideFunnel : FlowQuery where
  mode := .horizontalTb
  blockStart := 0
  blockSize := 0
  kind := .withinHeight
  area := .shapeOutside
  content := ⟨.horizontalTb, 0, 0, 200, 0⟩
  checkpoint := none
  container := ⟨200, 1000⟩

/-- A band from a point leaves, whatever its height, what a range without height at the point
    leaves. Beside floats without arcs, a higher range leaves no more than a lower one. -/
theorem Reachable.flowArea_noWider (h : c.Reachable) (hadmits : c.Admits q)
    (hcontent : q.content.mode = q.mode) (hruns : c.RunsBounded q) :
    (∀ height, 0 ≤ height →
      ∃ a b, c.flowArea (q.fromPoint height) = .ok a ∧ c.flowArea (q.within 0) = .ok b ∧
        b.rect.inlineStart = a.rect.inlineStart ∧ b.rect.inlineSize = a.rect.inlineSize ∧
        b.hasFloats = a.hasFloats ∧ b.isNegative = a.isNegative) ∧
      ((∀ f ∈ c.visible q, ∀ shape ∈ f.areaShape q.area, shape.Arcless) →
        ∀ height₁ height₂, 0 ≤ height₁ → height₁ ≤ height₂ →
          c.BlockExact (q.within height₁) → c.InlineExact (q.within height₁) →
          c.BlockExact (q.within height₂) → c.InlineExact (q.within height₂) →
          ∃ a₁ a₂, c.flowArea (q.within height₁) = .ok a₁ ∧ c.Describes (q.within height₁) a₁ ∧
            c.flowArea (q.within height₂) = .ok a₂ ∧ c.Describes (q.within height₂) a₂ ∧
            a₂.NoWider a₁ q.container) := by
  constructor
  · exact fun height hheight => h.flowArea_within_zero hadmits hcontent hruns hheight
  · intro harc height₁ height₂ hheight hle hblock₁ hinline₁ hblock₂ hinline₂
    obtain ⟨a₁, ha₁, hdescribes₁⟩ :=
      h.exists_describes (hadmits.within hheight) hcontent hblock₁ hinline₁ hruns
    obtain ⟨a₂, ha₂, hdescribes₂⟩ := h.exists_describes
      (hadmits.within (le_trans hheight hle)) hcontent hblock₂ hinline₂ hruns
    refine ⟨a₁, a₂, ha₁, hdescribes₁, ha₂, hdescribes₂, ?_⟩
    exact hdescribes₁.noWider hdescribes₂ rfl rfl (fun _ => rfl)
      (freeEdge_within hruns harc hheight hle .left) (freeEdge_within hruns harc hheight hle .right)

theorem funnel_flowArea_noWider :
    funnel.Reachable ∧
      (∃ a b, funnel.flowArea (besideFunnel.fromPoint .greatest) = .ok a ∧
        funnel.flowArea (besideFunnel.within 0) = .ok b ∧
        b.rect.inlineStart = a.rect.inlineStart ∧ b.rect.inlineSize = a.rect.inlineSize ∧
        b.hasFloats = a.hasFloats ∧ b.isNegative = a.isNegative) ∧
      ∃ a₁ a₂, funnel.flowArea (besideFunnel.within 10) = .ok a₁ ∧
        funnel.flowArea (besideFunnel.within 20) = .ok a₂ ∧ a₂.NoWider a₁ ⟨200, 1000⟩ := by
  have hadmits : funnel.Admits besideFunnel := ⟨by decide, by decide, by decide, by decide⟩
  obtain ⟨hpoint, hrange⟩ := funnel_reachable.flowArea_noWider hadmits rfl
    fun f hf shape hshape => (funnel_shapes f hf shape hshape).1
  obtain ⟨a₁, a₂, ha₁, -, ha₂, -, hnarrow⟩ :=
    hrange (fun f hf shape hshape => (funnel_shapes f hf shape hshape).2) 10 20 (by decide)
      (by decide) ⟨rfl, fun _ => rfl⟩ ⟨fun side => by cases side <;> rfl, rfl, fun _ => rfl, nofun⟩
      ⟨rfl, fun _ => rfl⟩ ⟨fun side => by cases side <;> rfl, rfl, fun _ => rfl, nofun⟩
  exact ⟨funnel_reachable, hpoint .greatest (by decide), a₁, a₂, ha₁, ha₂, hnarrow⟩

/-- In a range so high that the edges of the two floats cross, the area without inline size lies
    past the right edge of a lower range. -/
theorem funnel_crossed_edges :
    funnel.Reachable ∧ funnel.Admits besideFunnel ∧
      (∀ f ∈ funnel.floats, ∀ shape ∈ f.shape, shape.Bounded ∧ shape.Arcless) ∧
      (∀ height ∈ [(10 : Length), 80], funnel.BlockExact (besideFunnel.within height) ∧
        funnel.InlineExact (besideFunnel.within height)) ∧
      ¬∀ a₁ a₂, funnel.flowArea (besideFunnel.within 10) = .ok a₁ →
        funnel.flowArea (besideFunnel.within 80) = .ok a₂ →
        a₂.rect.lineEdge ⟨200, 1000⟩ .right ≤ a₁.rect.lineEdge ⟨200, 1000⟩ .right := by
  refine ⟨funnel_reachable, ⟨by decide, by decide, by decide, by decide⟩, funnel_shapes, ?_, ?_⟩
  · intro height hheight
    rcases List.mem_cons.1 hheight with rfl | hheight
    · exact ⟨⟨rfl, fun _ => rfl⟩, fun side => by cases side <;> rfl, rfl, fun _ => rfl, nofun⟩
    · cases List.mem_singleton.1 hheight
      exact ⟨⟨rfl, fun _ => rfl⟩, fun side => by cases side <;> rfl, rfl, fun _ => rfl, nofun⟩
  · intro hall
    have hlow : funnel.flowArea (besideFunnel.within 10) =
        .ok ⟨⟨.horizontalTb, 15, 0, 85, 10⟩, true, false⟩ := rfl
    have hhigh : funnel.flowArea (besideFunnel.within 80) =
        .ok ⟨⟨.horizontalTb, 120, 0, 0, 80⟩, true, true⟩ := rfl
    exact absurd (hall _ _ hlow hhigh) (by decide)

end FloatContext

end FloatLayout
