import FloatLayout.Proofs.RegionHistory

/-!
# Conversions there and back

A rectangle on the page and the same rectangle seen in a writing mode are found from each other,
whatever the flags of the mode, and offsets of the sides mean the same in both places. The two ends
of a rectangle along its line do not depend on where lines start.

## Main definitions

- `Logical.Rect.OfPhysicalExact`, `Logical.Rect.LineExact`, `Logical.Rect.GrowExact`,
  `Logical.Rect.ShrinkExact`: what is computed with lengths is what it is in whole numbers.
- `Logical.Rect.conversions_inverse`: rectangles are converted there and back without loss.
- `Logical.Rect.inflate_ofPhysical`: rectangles grow and shrink alike before a conversion and after
  it.
-/

namespace FloatLayout

section Sums

variable {a b c : Length}

theorem Length.sub_add_of_exact (h : (a - b).units = a.units - b.units) : a - b + b = a := by
  have := a.lower
  have := a.upper
  rw [Length.ext_iff, Length.units_add, h]
  omega

theorem Length.add_sub_of_exact (h : (a + b).units = a.units + b.units) : a + b - b = a := by
  have := a.lower
  have := a.upper
  rw [Length.ext_iff, Length.units_sub, h]
  omega

/-- What two amounts add up to is in range if it takes a position to the right place. -/
theorem Length.add_exact (h : (a + (b + c)).units = a.units + (b.units + c.units)) :
    (a + (b + c)).units = a.units + (b + c).units := by
  have := a.lower
  have := a.upper
  simp only [Length.units_add] at *
  omega

theorem Length.sub_exact (h : (a - (b + c)).units = a.units - (b.units + c.units)) :
    (a - (b + c)).units = a.units - (b + c).units := by
  have := a.lower
  have := a.upper
  simp only [Length.units_add, Length.units_sub] at *
  omega

end Sums

namespace Logical

/-- Flow-relative amounts in whole numbers. -/
def Margin.units (g : Margin Length) : Margin Int :=
  ⟨g.mode, g.blockStart.units, g.inlineEnd.units, g.blockEnd.units, g.inlineStart.units⟩

theorem Margin.units_ofPhysical (m : WritingMode) (sides : Sides Length) :
    (Margin.ofPhysical m sides).units = .ofPhysical m sides.units := by
  simp only [units, ofPhysical, apply_ite Length.units]
  rfl

namespace Rect

variable {m : WritingMode} {direction : Direction} {r : Rect Length} {g : Margin Length}
  {page larger smaller : FloatLayout.Rect Length} {sides : Sides Length}
  {container : FloatLayout.Size Length}

/-- A conversion from the page did not come back into the range of lengths. -/
def OfPhysicalExact (m : WritingMode) (page : FloatLayout.Rect Length)
    (container : FloatLayout.Size Length) : Prop :=
  (ofPhysical m page container).units = ofPhysical m page.units container.units

/-- Finding the two ends of a rectangle along its line did not come back into the range of
    lengths. -/
structure LineExact (r : Rect Length) (container : FloatLayout.Size Length) : Prop where
  left : (r.lineLeft container).units = r.units.lineLeft container.units
  right : (r.lineRight container).units = r.units.lineRight container.units

/-- Growing a rectangle did not come back into the range of lengths. -/
def GrowExact (r : Rect Length) (g : Margin Length) : Prop :=
  (r.grow g).units = r.units.grow g.units

/-- Shrinking a rectangle did not come back into the range of lengths. -/
def ShrinkExact (r : Rect Length) (g : Margin Length) : Prop :=
  (r.shrink g).units = r.units.shrink g.units

theorem OfPhysicalExact.toPhysical_eq (h : OfPhysicalExact m page container)
    (hback : (ofPhysical m page container).ToPhysicalExact container) :
    (ofPhysical m page container).toPhysical container = page := by
  apply FloatLayout.Rect.units_inj
  rw [hback, h, toPhysical_ofPhysical]

theorem ToPhysicalExact.ofPhysical_eq (h : r.ToPhysicalExact container)
    (hback : OfPhysicalExact r.mode (r.toPhysical container) container) :
    ofPhysical r.mode (r.toPhysical container) container = r := by
  apply units_inj
  rw [hback, h]
  exact ofPhysical_toPhysical container.units r.units

/-- From its line-left to its line-right end a rectangle extends over its inline size. -/
theorem LineExact.lineRight_sub_lineLeft (h : r.LineExact container) :
    r.lineRight container - r.lineLeft container = r.inlineSize := by
  have hsize := FloatContext.lineEdge_right_sub_left r.units container.units
  change r.units.lineRight container.units - r.units.lineLeft container.units =
    r.inlineSize.units at hsize
  apply Length.ext
  rw [Length.units_sub, h.left, h.right, hsize]
  exact Length.units_clamp_of_mem r.inlineSize.lower r.inlineSize.upper

theorem LineExact.facing_eq (hpage : OfPhysicalExact m page container)
    (hline : (ofPhysical m page container).LineExact container)
    (hpage' : OfPhysicalExact (m.facing direction) page container)
    (hline' : (ofPhysical (m.facing direction) page container).LineExact container) :
    (ofPhysical (m.facing direction) page container).lineLeft container =
        (ofPhysical m page container).lineLeft container ∧
      (ofPhysical (m.facing direction) page container).lineRight container =
        (ofPhysical m page container).lineRight container := by
  have hedge := lineEdge_facing m direction page.units container.units
  constructor
  · apply Length.ext
    rw [hline'.left, hline.left, hpage, hpage']
    exact hedge .left
  · apply Length.ext
    rw [hline'.right, hline.right, hpage, hpage']
    exact hedge .right

/-- Rectangles are converted from the page and back to it, and from a writing mode and back to it,
    without loss. What a rectangle on the page looks like from line-left is the same in both base
    directions, and as long as its inline size says. -/
theorem conversions_inverse (m : WritingMode) (container : FloatLayout.Size Length) :
    (∀ page : FloatLayout.Rect Length, OfPhysicalExact m page container →
      (ofPhysical m page container).ToPhysicalExact container →
        (ofPhysical m page container).toPhysical container = page) ∧
      (∀ r : Rect Length, r.mode = m → r.ToPhysicalExact container →
        OfPhysicalExact m (r.toPhysical container) container →
          ofPhysical m (r.toPhysical container) container = r) ∧
      ∀ page : FloatLayout.Rect Length,
        let r := ofPhysical m page container
        OfPhysicalExact m page container → r.LineExact container →
          r.lineRight container - r.lineLeft container = r.inlineSize ∧
          ∀ direction,
            let turned := ofPhysical (m.facing direction) page container
            OfPhysicalExact (m.facing direction) page container → turned.LineExact container →
              turned.lineLeft container = r.lineLeft container ∧
                turned.lineRight container = r.lineRight container := by
  refine ⟨fun page h hback => h.toPhysical_eq hback, ?_, ?_⟩
  · rintro r rfl h hback
    exact h.ofPhysical_eq hback
  · intro page r hpage hline
    refine ⟨hline.lineRight_sub_lineLeft, ?_⟩
    intro direction turned hpage' hline'
    exact LineExact.facing_eq hpage hline hpage' hline'

/-- Lines run from bottom to top, and are stacked from right to left. No pair of properties makes
    this mode. -/
def upended : WritingMode := ⟨false, true, false, false, false, true⟩

/-- A rectangle of negative height. -/
def slab : FloatLayout.Rect Length := ⟨250, 30, 50, -70⟩

/-- A container around `slab`. -/
def sheet : FloatLayout.Size Length := ⟨300, 400⟩

/-- No sign of a size and no combination of flags stands in the way. -/
theorem upended_conversions_inverse :
    (ofPhysical upended slab sheet).toPhysical sheet = slab ∧
      ofPhysical upended ((⟨upended, 10, 20, -30, 40⟩ : Rect Length).toPhysical sheet) sheet =
        ⟨upended, 10, 20, -30, 40⟩ ∧
      (ofPhysical upended slab sheet).lineRight sheet -
        (ofPhysical upended slab sheet).lineLeft sheet = -70 ∧
      (ofPhysical (upended.facing .rtl) slab sheet).lineLeft sheet =
        (ofPhysical upended slab sheet).lineLeft sheet := by
  obtain ⟨hthere, hback, hpage⟩ := conversions_inverse upended sheet
  obtain ⟨hsize, hfacing⟩ := hpage slab rfl ⟨rfl, rfl⟩
  exact ⟨hthere slab rfl rfl, hback ⟨upended, 10, 20, -30, 40⟩ rfl rfl rfl, hsize,
    (hfacing .rtl rfl ⟨rfl, rfl⟩).1⟩

-- ════════════════════════════════════════════════════════════════════════
-- Growing and shrinking
-- ════════════════════════════════════════════════════════════════════════

theorem inflate_eq (hr : r.mode = m) (hg : g.mode = m) : r.inflate m g = .ok (r.grow g) := by
  subst hr
  rw [inflate, hg, expectMode_self]
  rfl

theorem deflate_eq (hr : r.mode = m) (hg : g.mode = m) : r.deflate m g = .ok (r.shrink g) := by
  subst hr
  rw [deflate, hg, expectMode_self]
  rfl

/-- A rectangle that grew within the range of lengths shrinks to what it was. -/
theorem GrowExact.shrink_grow (h : r.GrowExact g) : (r.grow g).shrink g = r := by
  have hinline : (r.inlineStart - g.inlineStart).units = r.inlineStart.units - g.inlineStart.units :=
    congrArg inlineStart h
  have hblock : (r.blockStart - g.blockStart).units = r.blockStart.units - g.blockStart.units :=
    congrArg blockStart h
  have hwidth : (r.inlineSize + g.inlineStartEnd).units =
      r.inlineSize.units + g.inlineStartEnd.units := Length.add_exact (congrArg inlineSize h)
  have hheight : (r.blockSize + g.blockStartEnd).units =
      r.blockSize.units + g.blockStartEnd.units := Length.add_exact (congrArg blockSize h)
  simp only [grow, shrink, Length.sub_add_of_exact hinline, Length.sub_add_of_exact hblock,
    Length.add_sub_of_exact hwidth, Length.add_sub_of_exact hheight]

/-- A rectangle that shrank within the range of lengths grows to what it was. -/
theorem ShrinkExact.grow_shrink (h : r.ShrinkExact g) : (r.shrink g).grow g = r := by
  have hinline : (r.inlineStart + g.inlineStart).units = r.inlineStart.units + g.inlineStart.units :=
    congrArg inlineStart h
  have hblock : (r.blockStart + g.blockStart).units = r.blockStart.units + g.blockStart.units :=
    congrArg blockStart h
  have hwidth : (r.inlineSize - g.inlineStartEnd).units =
      r.inlineSize.units - g.inlineStartEnd.units := Length.sub_exact (congrArg inlineSize h)
  have hheight : (r.blockSize - g.blockStartEnd).units =
      r.blockSize.units - g.blockStartEnd.units := Length.sub_exact (congrArg blockSize h)
  simp only [grow, shrink, Length.add_sub_of_exact hinline, Length.add_sub_of_exact hblock,
    Length.sub_add_of_exact hwidth, Length.sub_add_of_exact hheight]

/-- The offsets of the sides mean the same on the page and in a writing mode. -/
theorem GrowExact.grow_eq (hpage : OfPhysicalExact m page container)
    (hlarger : larger.units = page.units.more sides.units)
    (hlarger' : OfPhysicalExact m larger container)
    (h : (ofPhysical m page container).GrowExact (.ofPhysical m sides)) :
    (ofPhysical m page container).grow (.ofPhysical m sides) = ofPhysical m larger container := by
  apply units_inj
  rw [h, hpage, Margin.units_ofPhysical, grow_ofPhysical, ← hlarger, hlarger']

theorem ShrinkExact.shrink_eq (hpage : OfPhysicalExact m page container)
    (hsmaller : smaller.units = page.units.less sides.units)
    (hsmaller' : OfPhysicalExact m smaller container)
    (h : (ofPhysical m page container).ShrinkExact (.ofPhysical m sides)) :
    (ofPhysical m page container).shrink (.ofPhysical m sides) =
      ofPhysical m smaller container := by
  apply units_inj
  rw [h, hpage, Margin.units_ofPhysical, shrink_ofPhysical, ← hsmaller, hsmaller']

/-- Growing a rectangle by the offsets of its sides gives the rectangle that has grown by them on
    the page, shrinking it the one that has shrunk there, and either is undone by the other. -/
theorem inflate_ofPhysical (m : WritingMode) (container : FloatLayout.Size Length) :
    (∀ (page larger : FloatLayout.Rect Length) (sides : Sides Length),
        larger.units = page.units.more sides.units →
        OfPhysicalExact m page container → OfPhysicalExact m larger container →
        (ofPhysical m page container).GrowExact (.ofPhysical m sides) →
          (ofPhysical m page container).inflate m (.ofPhysical m sides) =
            .ok (ofPhysical m larger container)) ∧
      (∀ (page smaller : FloatLayout.Rect Length) (sides : Sides Length),
        smaller.units = page.units.less sides.units →
        OfPhysicalExact m page container → OfPhysicalExact m smaller container →
        (ofPhysical m page container).ShrinkExact (.ofPhysical m sides) →
          (ofPhysical m page container).deflate m (.ofPhysical m sides) =
            .ok (ofPhysical m smaller container)) ∧
      ∀ (r : Rect Length) (g : Margin Length), r.mode = m → g.mode = m →
        (r.GrowExact g → r.inflate m g >>= (·.deflate m g) = .ok r) ∧
          (r.ShrinkExact g → r.deflate m g >>= (·.inflate m g) = .ok r) := by
  refine ⟨?_, ?_, fun r g hr hg => ⟨fun hexact => ?_, fun hexact => ?_⟩⟩
  · intro page larger sides hlarger hpage hlarger' hexact
    exact (inflate_eq rfl rfl).trans (congrArg _ (hexact.grow_eq hpage hlarger hlarger'))
  · intro page smaller sides hsmaller hpage hsmaller' hexact
    exact (deflate_eq rfl rfl).trans (congrArg _ (hexact.shrink_eq hpage hsmaller hsmaller'))
  · refine bind_eq_ok_iff.2 ⟨_, inflate_eq hr hg, ?_⟩
    exact (deflate_eq (r := r.grow g) hr hg).trans (congrArg _ hexact.shrink_grow)
  · refine bind_eq_ok_iff.2 ⟨_, deflate_eq hr hg, ?_⟩
    exact (inflate_eq (r := r.shrink g) hr hg).trans (congrArg _ hexact.grow_shrink)

/-- Four different offsets, in a mode with lines that run upwards. -/
theorem upended_inflate_ofPhysical :
    (ofPhysical upended slab sheet).inflate upended (.ofPhysical upended ⟨1, 2, 3, 4⟩) =
        .ok (ofPhysical upended ⟨246, 29, 56, -66⟩ sheet) ∧
      (ofPhysical upended slab sheet).deflate upended (.ofPhysical upended ⟨1, 2, 3, 4⟩) =
        .ok (ofPhysical upended ⟨254, 31, 44, -74⟩ sheet) ∧
      ((ofPhysical upended slab sheet).inflate upended ⟨upended, 1, 2, 3, 4⟩ >>=
        (·.deflate upended ⟨upended, 1, 2, 3, 4⟩)) = .ok (ofPhysical upended slab sheet) := by
  obtain ⟨hgrow, hshrink, hundo⟩ := inflate_ofPhysical upended sheet
  have hlarger : OfPhysicalExact upended ⟨246, 29, 56, -66⟩ sheet := rfl
  have hsmaller : OfPhysicalExact upended ⟨254, 31, 44, -74⟩ sheet := rfl
  refine ⟨hgrow slab _ ⟨1, 2, 3, 4⟩ rfl rfl hlarger rfl,
    hshrink slab _ ⟨1, 2, 3, 4⟩ rfl rfl hsmaller rfl, ?_⟩
  exact (hundo (ofPhysical upended slab sheet) ⟨upended, 1, 2, 3, 4⟩ rfl rfl).1 rfl

end Rect

end Logical

end FloatLayout
