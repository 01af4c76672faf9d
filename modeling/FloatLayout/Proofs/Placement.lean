import FloatLayout.Proofs.BaseDirection
import FloatLayout.Proofs.Totality

/-!
# Placement in both base directions

A left or right float gets the same record whichever base direction its containing block has. Only
the flow-relative rectangles on the way to the record differ.

## Main definitions

- `FloatContext.addPhysical`: places a box at a physical margin box.
- `FloatBox.PlaceExact`: no conversion on the way to a record came back into the range of lengths.
- `FloatBox.Drawable`: a shape image has an area.
- `FloatContext.add_either_direction`: the record of a box is the same in both base directions.
-/

namespace FloatLayout

variable {m : WritingMode} {direction : Direction} {container : Size Length}

-- ════════════════════════════════════════════════════════════════════════
-- Areas of images
-- ════════════════════════════════════════════════════════════════════════

namespace AlphaMask

variable {mask : AlphaMask} {vertical : Bool} {limit : Nat} {v : VisibleLine}

/-- A visible line is a line of the mask, and its ends are pixels of that line. -/
theorem bounds_of_mem_visibleLines (h : v ∈ mask.visibleLines vertical limit) :
    v.line < mask.lineCount vertical ∧ v.first < mask.lineLength vertical ∧
      v.last < mask.lineLength vertical := by
  obtain ⟨line, hline, hv⟩ := List.mem_filterMap.1 h
  have hpixel : ∀ pixel ∈ mask.visiblePixels vertical limit line,
      pixel < mask.lineLength vertical := by
    intro pixel hpixel
    exact List.mem_range.1 (List.mem_filter.1 hpixel).1
  unfold visibleLine? at hv
  dsimp only at hv
  split at hv
  · next first last hfirst hlast =>
    cases hv
    exact ⟨List.mem_range.1 hline, hpixel _ (List.mem_of_head? hfirst),
      hpixel _ (List.mem_of_getLast? hlast)⟩
  · cases hv

end AlphaMask

namespace PixelArea

variable {unit : Int} {origin : Point Length} {v : VisibleLine} {mask : AlphaMask}
  {vertical : Bool} {limit : Nat} {threshold : Single} {content : Rect Length}

/-- The extents of a mask, in app units, are lengths. -/
def MaskInRange (mask : AlphaMask) (unit : Int) : Prop :=
  mask.size.width * unit ≤ 1073741823 ∧ mask.size.height * unit ≤ 1073741823

theorem MaskInRange.lineLength_mul_le (h : MaskInRange mask unit) (hwidth : 0 ≤ mask.size.width)
    (hheight : 0 ≤ mask.size.height) (vertical : Bool) :
    mask.lineLength vertical * unit ≤ 1073741823 := by
  cases vertical with
  | false =>
    change (mask.size.width.toNat : Int) * unit ≤ _
    rw [Int.toNat_of_nonneg hwidth]
    exact h.1
  | true =>
    change (mask.size.height.toNat : Int) * unit ≤ _
    rw [Int.toNat_of_nonneg hheight]
    exact h.2

theorem MaskInRange.lineCount_mul_le (h : MaskInRange mask unit) (hunit : 0 ≤ unit)
    (hwidth : 0 ≤ mask.size.width) (hheight : 0 ≤ mask.size.height) (vertical : Bool) :
    mask.lineCount vertical * unit ≤ 1073741823 := by
  -- The lines of one direction are as many as the pixels of a line in the other one.
  have hcount : (mask.lineCount vertical : Int) ≤ mask.lineLength !vertical := by
    unfold AlphaMask.lineCount
    split
    · omega
    · cases vertical <;> exact Int.le_refl _
  exact Int.le_trans (Int.mul_le_mul_of_nonneg_right hcount hunit)
    (h.lineLength_mul_le hwidth hheight _)

/-- A multiple of the unit, up to as many as there are pixels, is a length. -/
theorem mul_unit_mem {k count : Int} (hunit : 0 ≤ unit) (hcount : count * unit ≤ 1073741823)
    (hlower : -count ≤ k) (hupper : k ≤ count) :
    -1073741823 ≤ k * unit ∧ k * unit ≤ 1073741823 := by
  have hleast := Int.mul_le_mul_of_nonneg_right hlower hunit
  have hgreatest := Int.mul_le_mul_of_nonneg_right hupper hunit
  rw [Int.neg_mul] at hleast
  omega

theorem checked32_of_mem {operation : WordOperation} {n : Int} (h : -2147483646 ≤ n)
    (h' : n ≤ 2147483646) : Word.checked32 operation n = .ok n := by
  apply Word.checked_eq_ok
  simp only [Word.Fits, Word.limit]
  omega

theorem offsetOf_inRange {lines pixels : Nat} (hline : v.line < lines) (hfirst : v.first < pixels)
    (hlast : v.last < pixels) (hunit : 0 ≤ unit) (hlines : lines * unit ≤ 1073741823)
    (hpixels : pixels * unit ≤ 1073741823) :
    ∃ dx dy, offsetOf m unit v = .ok (dx, dy) ∧ (-1073741823 ≤ dx ∧ dx ≤ 1073741823) ∧
      -1073741823 ≤ dy ∧ dy ≤ 1073741823 := by
  have hfirstUnits := mul_unit_mem (k := v.first) hunit hpixels (by omega) (by omega)
  have hlastUnits := mul_unit_mem (k := -(v.last + 1)) hunit hpixels (by omega) (by omega)
  have hlineUnits := mul_unit_mem (k := v.line) hunit hlines (by omega) (by omega)
  have hendUnits := mul_unit_mem (k := -(v.line + 1)) hunit hlines (by omega) (by omega)
  have hchecked : ∀ {n : Int}, -1073741823 ≤ n ∧ n ≤ 1073741823 →
      Word.checked32 .multiply n = .ok n := fun h =>
    checked32_of_mem (by omega) (by omega)
  unfold offsetOf
  split
  · rw [hchecked hfirstUnits, hchecked hendUnits]
    exact ⟨_, _, rfl, hfirstUnits, hendUnits⟩
  · split
    · rw [hchecked hlastUnits, hchecked hlineUnits]
      exact ⟨_, _, rfl, hlastUnits, hlineUnits⟩
    · rw [hchecked hfirstUnits, hchecked hlineUnits]
      exact ⟨_, _, rfl, hfirstUnits, hlineUnits⟩

theorem runOf_inRange {lines pixels : Nat} (hline : v.line < lines) (hfirst : v.first < pixels)
    (hlast : v.last < pixels) (hunit : 0 ≤ unit) (hlines : lines * unit ≤ 1073741823)
    (hpixels : pixels * unit ≤ 1073741823) :
    ∃ run, runOf m unit origin v = .ok run ∧ run.InRange := by
  obtain ⟨dx, dy, hoffset, hdx, hdy⟩ :=
    offsetOf_inRange (m := m) hline hfirst hlast hunit hlines hpixels
  have hwidth := mul_unit_mem (k := v.last + 1 - v.first) hunit hpixels (by omega) (by omega)
  have hheight := mul_unit_mem (k := 1) hunit hlines (by omega) (by omega)
  have := origin.x.lower
  have := origin.x.upper
  have := origin.y.lower
  have := origin.y.upper
  refine ⟨⟨.clamp (origin.x.units + dx), .clamp (origin.y.units + dy),
    (v.last + 1 - v.first) * unit, unit⟩, ?_, ?_⟩
  · refine bind_eq_ok_iff.2 ⟨_, checked32_of_mem (by omega) (by omega), ?_⟩
    refine bind_eq_ok_iff.2 ⟨_, hoffset, ?_⟩
    refine bind_eq_ok_iff.2 ⟨_, checked32_of_mem (by omega) (by omega), ?_⟩
    exact bind_eq_ok_iff.2 ⟨_, checked32_of_mem (by omega) (by omega), rfl⟩
  · simp only [PixelRun.InRange]
    omega

theorem ofRuns_succeeds {runs : List PixelRun} (h : ∀ run ∈ runs, run.InRange) :
    Succeeds (ofRuns runs) := by
  unfold ofRuns
  split
  · next last hlast =>
    have hmem := List.mem_of_getLast? hlast
    exact (PixelRun.bottom_succeeds (h _ hmem).bounded.stopFits).bind fun y _ => .pure _
  · exact .pure _

/-- A mask whose extents are lengths has an area at every threshold between zero and one. -/
theorem ofMask_succeeds (hunit : 0 ≤ unit) (hmask : MaskInRange mask unit)
    (hthreshold : alphaLimit? threshold ≠ none) :
    Succeeds (ofMask mask unit threshold content m container) := by
  obtain ⟨limit, hlimit⟩ := Option.ne_none_iff_exists'.1 hthreshold
  unfold ofMask
  rw [hlimit]
  dsimp only
  split
  · next hformed =>
    obtain ⟨hwidth, hheight, -⟩ := hformed
    have hruns : ∀ v ∈ mask.visibleLines m.vertical limit, ∃ run,
        runOf m unit (LineRelative.point m content.origin container) v = .ok run ∧
          run.InRange := by
      intro v hv
      obtain ⟨hline, hfirst, hlast⟩ := AlphaMask.bounds_of_mem_visibleLines hv
      exact runOf_inRange hline hfirst hlast hunit
        (hmask.lineCount_mul_le hunit hwidth hheight m.vertical)
        (hmask.lineLength_mul_le hwidth hheight m.vertical)
    obtain ⟨runs, hruns, hall⟩ := exists_mapM_eq_ok hruns
    rw [hruns]
    refine ofRuns_succeeds fun run hrun => hall run ?_
    split at hrun
    · exact List.mem_reverse.1 hrun
    · exact hrun
  · exact .pure _

end PixelArea

-- ════════════════════════════════════════════════════════════════════════
-- Shapes in both base directions
-- ════════════════════════════════════════════════════════════════════════

/-- The physical sides of a line do not depend on the base direction, so the corners that lie at
    them do not either. -/
theorem CornerRadii.lineRelative_facing (m : WritingMode) (direction : Direction)
    (r : CornerRadii Length) : r.lineRelative (m.facing direction) = r.lineRelative m := by
  rcases m with ⟨_ | _, _ | _, _ | _, _ | _, _, _ | _⟩ <;> cases direction <;> rfl

theorem Logical.Size.ofPhysical_facing (m : WritingMode) (direction : Direction)
    (size : FloatLayout.Size Length) :
    (ofPhysical (m.facing direction) size).inline = (ofPhysical m size).inline ∧
      (ofPhysical (m.facing direction) size).block = (ofPhysical m size).block := by
  rcases m with ⟨_, _ | _, _, _, _, _⟩ <;> exact ⟨rfl, rfl⟩

/-- Bringing a basic shape into line-relative space kept to the range of lengths. -/
def BasicShape.PlaceExact (basic : BasicShape) (reference : Rect Length) (m : WritingMode)
    (container : Size Length) : Prop :=
  match basic with
  | .inset insets _ => LineRelative.RectExact m (reference.inset insets) [] container
  | .circle center _ | .ellipse center _ _ =>
    LineRelative.PointExact m (reference.origin.shift center.x center.y) container
  | .polygon vertices =>
    ∀ v ∈ vertices, LineRelative.PointExact m (reference.origin.shift v.x v.y) container

theorem BasicShape.place_facing {basic : BasicShape} {reference : Rect Length}
    (h : basic.PlaceExact reference m container)
    (h' : basic.PlaceExact reference (m.facing direction) container) :
    basic.place reference (m.facing direction) container = basic.place reference m container := by
  cases basic with
  | inset insets radii =>
    have hrect := LineRelative.RectExact.rect_eq h h'
    have hradii : ∀ r : Option (CornerRadii Length),
        r.map (·.lineRelative (m.facing direction)) = r.map (·.lineRelative m) := fun r => by
      simp only [CornerRadii.lineRelative_facing]
    simp only [place, hradii]
    exact congrArg (fun rect => Shape.roundedBox ⟨rect, _⟩) hrect
  | circle center radius =>
    have hcenter := LineRelative.PointExact.point_eq h h'
    simp only [place, hcenter]
  | ellipse center radiusX radiusY =>
    have hcenter := LineRelative.PointExact.point_eq h h'
    have hradii := Logical.Size.ofPhysical_facing m direction
    simp only [place, hcenter, (hradii _).1, (hradii _).2]
  | polygon vertices =>
    have hvertices : vertices.map (fun v => LineRelative.point (m.facing direction)
        (reference.origin.shift v.x v.y) container) =
          vertices.map fun v => LineRelative.point m (reference.origin.shift v.x v.y) container :=
      List.map_congr_left fun v hv => LineRelative.PointExact.point_eq (h v hv) (h' v hv)
    simp only [place, hvertices]

namespace FloatBox

variable {box : FloatBox} {marginBox : Rect Length}

/-- The offsets between the margin box and a reference box, from the outside inwards. -/
def insetsOf (box : FloatBox) : ReferenceBox → List (Sides Length)
  | .marginBox => []
  | .borderBox => [box.margin]
  | .paddingBox => [box.margin, box.border]
  | .contentBox => [box.margin, box.border, box.padding]

/-- A reference box of a margin box in the mode of the caller is found without failure. -/
theorem referenceRect_eq (box : FloatBox) (reference : ReferenceBox)
    (marginRect : Logical.Rect Length) :
    box.referenceRect reference marginRect.mode marginRect =
      .ok (marginRect.shrinkAll (box.insetsOf reference)) := by
  have hless : ∀ (r : Logical.Rect Length) (sides : Sides Length),
      r.deflate r.mode (.ofPhysical r.mode sides) = .ok (r.shrink (.ofPhysical r.mode sides)) := by
    intro r sides
    refine bind_eq_ok_iff.2 ⟨(), Logical.expectMode_self _, ?_⟩
    exact bind_eq_ok_iff.2 ⟨(), Logical.expectMode_self _, rfl⟩
  cases reference with
  | marginBox => rfl
  | borderBox => exact hless _ _
  | paddingBox => exact bind_eq_ok_iff.2 ⟨_, hless _ _, hless _ _⟩
  | contentBox =>
    refine bind_eq_ok_iff.2 ⟨_, hless _ _, ?_⟩
    exact bind_eq_ok_iff.2 ⟨_, hless _ _, hless _ _⟩

/-- Bringing the shape of a box into line-relative space kept to the range of lengths. -/
def ShapeExact (box : FloatBox) (m : WritingMode) (marginBox : Rect Length)
    (container : Size Length) : Prop :=
  match box.shapeOutside with
  | .none | .url => True
  | .image _ => ∀ content, box.contentRect = .ok content →
    ∀ mask ∈ box.render (box.imageSize content), mask.layout.WellFormed →
      LineRelative.PointExact m content.origin container
  | .box reference => LineRelative.RectExact m marginBox (box.insetsOf reference) container
  | .shape basic reference =>
    Logical.Rect.PhysicalExact m marginBox (box.insetsOf reference) container ∧
      basic.PlaceExact (((Logical.Rect.ofPhysical m marginBox container).shrinkAll
        (box.insetsOf reference)).toPhysical container) m container

/-- Bringing a box into line-relative space kept to the range of lengths, and so did bringing its
    shape there, which a margin box without area does not have. -/
structure PlaceExact (box : FloatBox) (m : WritingMode) (marginBox : Rect Length)
    (container : Size Length) : Prop where
  rect : LineRelative.RectExact m marginBox [] container
  shape : ¬marginBox.IsEmpty → box.ShapeExact m marginBox container

/-- The image of a shape is drawn: its content box has no negative size, its threshold lies between
    zero and one, and the extents of the mask are lengths. -/
def Drawable (box : FloatBox) : Prop :=
  ∀ threshold, box.shapeOutside = .image threshold →
    PixelArea.alphaLimit? threshold ≠ none ∧ ∃ content, box.contentRect = .ok content ∧
      ∀ mask ∈ box.render (box.imageSize content), PixelArea.MaskInRange mask box.pixelUnits

end FloatBox

section Placement

variable {box : FloatBox} {marginBox : Rect Length} {marginRect : Logical.Rect Length}
  {side : LineSide} {dx dy : Length}

/-- A box that floats left or right lies at that side of the line in every mode. -/
theorem FloatBox.exists_side?_eq (hfloat : box.float = .left ∨ box.float = .right) :
    ∃ side, ∀ m, box.float.side? m = some side := by
  rcases hfloat with hleft | hright
  · exact ⟨.left, fun _ => by rw [hleft]; rfl⟩
  · exact ⟨.right, fun _ => by rw [hright]; rfl⟩

theorem FloatBox.imageShape_facing {threshold : Single}
    (h : ∀ content, box.contentRect = .ok content →
      ∀ mask ∈ box.render (box.imageSize content), mask.layout.WellFormed →
        LineRelative.PointExact m content.origin container)
    (h' : ∀ content, box.contentRect = .ok content →
      ∀ mask ∈ box.render (box.imageSize content), mask.layout.WellFormed →
        LineRelative.PointExact (m.facing direction) content.origin container) :
    box.imageShape threshold (m.facing direction) container =
      box.imageShape threshold m container := by
  unfold imageShape
  cases hcontent : box.contentRect with
  | error fault => rfl
  | ok content =>
    cases hmask : box.render (box.imageSize content) with
    | none => simp only [bind, Except.bind, hmask]
    | some mask =>
      simp only [bind, Except.bind, hmask]
      split
      · next hformed =>
        have horigin := LineRelative.PointExact.point_eq (h content hcontent mask hmask hformed)
          (h' content hcontent mask hmask hformed)
        have harea : PixelArea.ofMask mask box.pixelUnits threshold content (m.facing direction)
            container = PixelArea.ofMask mask box.pixelUnits threshold content m container := by
          unfold PixelArea.ofMask
          rw [horigin]
          rfl
        rw [harea]
      · rfl

theorem Logical.Rect.shrinkAll_mode {α : Type} [Add α] [Sub α] (r : Logical.Rect α)
    (insets : List (Sides α)) : (r.shrinkAll insets).mode = r.mode := by
  induction insets generalizing r with
  | nil => rfl
  | cons sides rest ih => exact ih (r.shrink (.ofPhysical r.mode sides))

theorem LineRelative.rectIn_eq {r : Logical.Rect Length} (h : r.mode = m) :
    rectIn m r container = .ok (rect r container) :=
  bind_eq_ok_iff.2 ⟨(), require_of h, rfl⟩

theorem Shape.ofStyle_box {reference : ReferenceBox} (h : box.shapeOutside = .box reference)
    (marginRect : Logical.Rect Length) :
    ofStyle box marginRect marginRect.mode container =
      .ok (.ok (some (.roundedBox
        ⟨LineRelative.rect (marginRect.shrinkAll (box.insetsOf reference)) container,
          box.radii.map (·.lineRelative marginRect.mode)⟩))) := by
  unfold ofStyle
  rw [h]
  refine bind_eq_ok_iff.2 ⟨_, box.referenceRect_eq reference marginRect, ?_⟩
  exact bind_eq_ok_iff.2 ⟨_, LineRelative.rectIn_eq (Logical.Rect.shrinkAll_mode _ _), rfl⟩

theorem Shape.ofStyle_shape {basic : BasicShape} {reference : ReferenceBox}
    (h : box.shapeOutside = .shape basic reference) (marginRect : Logical.Rect Length) :
    ofStyle box marginRect marginRect.mode container =
      .ok (.ok (some (basic.place
        ((marginRect.shrinkAll (box.insetsOf reference)).toPhysical container) marginRect.mode
          container))) := by
  unfold ofStyle
  rw [h]
  refine bind_eq_ok_iff.2 ⟨_, box.referenceRect_eq reference marginRect, ?_⟩
  exact bind_eq_ok_iff.2 ⟨(), require_of (Logical.Rect.shrinkAll_mode _ _), rfl⟩

theorem Shape.ofStyle_facing (h : box.ShapeExact m marginBox container)
    (h' : box.ShapeExact (m.facing direction) marginBox container) :
    ofStyle box (.ofPhysical (m.facing direction) marginBox container) (m.facing direction)
        container =
      ofStyle box (.ofPhysical m marginBox container) m container := by
  unfold FloatBox.ShapeExact at h h'
  cases hshape : box.shapeOutside with
  | none | url =>
    unfold ofStyle
    rw [hshape]
  | image threshold =>
    rw [hshape] at h h'
    unfold ofStyle
    simp only [hshape, FloatBox.imageShape_facing h h']
  | box reference =>
    rw [hshape] at h h'
    refine (ofStyle_box hshape (.ofPhysical (m.facing direction) marginBox container)).trans
      (Eq.trans ?_ (ofStyle_box hshape (.ofPhysical m marginBox container)).symm)
    have hrect := LineRelative.RectExact.rect_eq h h'
    have hradii := CornerRadii.lineRelative_facing m direction
    change Except.ok (Except.ok (some (roundedBox ⟨_, box.radii.map _⟩))) = _
    rw [hrect]
    simp only [Logical.Rect.ofPhysical, hradii]
  | shape basic reference =>
    rw [hshape] at h h'
    obtain ⟨hphysical, hplace⟩ := h
    obtain ⟨hphysical', hplace'⟩ := h'
    have hbox := Logical.Rect.PhysicalExact.toPhysical_eq hphysical hphysical'
    rw [hbox] at hplace'
    refine (ofStyle_shape hshape (.ofPhysical (m.facing direction) marginBox container)).trans
      (Eq.trans ?_ (ofStyle_shape hshape (.ofPhysical m marginBox container)).symm)
    rw [hbox]
    change Except.ok (Except.ok (some (basic.place _ (m.facing direction) container))) = _
    rw [BasicShape.place_facing hplace hplace']
    rfl

theorem Shape.ofStyle_succeeds (h : box.Drawable) (marginRect : Logical.Rect Length) :
    Succeeds (ofStyle box marginRect marginRect.mode container) := by
  cases hshape : box.shapeOutside with
  | none | url =>
    unfold ofStyle
    rw [hshape]
    exact .pure _
  | image threshold =>
    obtain ⟨hthreshold, content, hcontent, hmasks⟩ := h threshold hshape
    unfold ofStyle
    rw [hshape]
    refine Succeeds.bind ?_ fun outcome _ => .pure _
    refine Succeeds.bind ⟨content, hcontent⟩ fun rect hrect => ?_
    cases hcontent.symm.trans hrect
    cases hmask : box.render (box.imageSize content) with
    | none => exact .pure _
    | some mask =>
      dsimp only
      split
      · have hunit : 0 ≤ box.pixelUnits := by
          unfold FloatBox.pixelUnits
          omega
        exact (PixelArea.ofMask_succeeds hunit (hmasks mask hmask) hthreshold).bind
          fun area _ => .pure _
      · exact .pure _
  | box reference => exact ⟨_, ofStyle_box hshape marginRect⟩
  | shape basic reference => exact ⟨_, ofStyle_shape hshape marginRect⟩

namespace PlacedFloat

/-- A margin box has area in line-relative space exactly if it has some on the page. -/
theorem isEmpty_rect_iff :
    ((LineRelative.rect (.ofPhysical m marginBox container) container).shift dx dy).IsEmpty ↔
      marginBox.IsEmpty := by
  unfold Rect.IsEmpty Size.IsEmpty LineRelative.rect Logical.Rect.ofPhysical
  cases m.vertical with
  | false => exact Iff.rfl
  | true => exact not_congr and_comm

theorem place_facing (h : box.PlaceExact m marginBox container)
    (h' : box.PlaceExact (m.facing direction) marginBox container) :
    place box side dx dy (.ofPhysical (m.facing direction) marginBox container)
        (m.facing direction) container =
      place box side dx dy (.ofPhysical m marginBox container) m container := by
  have hrectIn : ∀ n, LineRelative.rectIn n (.ofPhysical n marginBox container) container =
      .ok (LineRelative.rect (.ofPhysical n marginBox container) container) := fun n =>
    LineRelative.rectIn_eq rfl
  have hrect : LineRelative.rect (.ofPhysical (m.facing direction) marginBox container) container =
      LineRelative.rect (.ofPhysical m marginBox container) container :=
    LineRelative.RectExact.rect_eq h.rect h'.rect
  unfold place
  rw [hrectIn, hrectIn, hrect]
  simp only [bind, Except.bind, isEmpty_rect_iff]
  split
  · rfl
  · next harea => rw [Shape.ofStyle_facing (h.shape harea) (h'.shape harea)]

theorem place_succeeds (h : box.Drawable) (marginRect : Logical.Rect Length) :
    Succeeds (place box side dx dy marginRect marginRect.mode container) := by
  unfold place
  refine Succeeds.bind ⟨_, LineRelative.rectIn_eq rfl⟩ fun rect _ => ?_
  dsimp only
  split
  · exact .pure _
  · refine (Shape.ofStyle_succeeds h marginRect).bind fun outcome _ => ?_
    cases outcome <;> exact .pure _

end PlacedFloat

end Placement

namespace FloatContext

variable {c : FloatContext} {box : FloatBox} {marginBox : Rect Length}

/-- Places a box at a physical margin box, in the mode of a pair of properties. -/
def addPhysical (c : FloatContext) (box : FloatBox) (marginBox : Rect Length)
    (property : WritingModeProperty) (direction : Direction) (container : Size Length) :
    Except Fault FloatContext :=
  c.add box (.ofPhysical (.ofProperties property direction) marginBox container)
    (.ofProperties property direction) container

theorem add_facing (hfloat : box.float = .left ∨ box.float = .right)
    (h : box.PlaceExact m marginBox container)
    (h' : box.PlaceExact (m.facing direction) marginBox container) :
    c.add box (.ofPhysical (m.facing direction) marginBox container) (m.facing direction)
        container = c.add box (.ofPhysical m marginBox container) m container := by
  obtain ⟨side, hside⟩ := FloatBox.exists_side?_eq hfloat
  unfold add
  simp only [hside, PlacedFloat.place_facing h h']
  rfl

theorem exists_add_eq_ok {side : LineSide} (hside : box.float.side? m = some side)
    (hmode : c.mode.SameDirections m) (hwidth : 0 ≤ marginBox.width)
    (hheight : 0 ≤ marginBox.height) (hdraw : box.Drawable) :
    ∃ f, c.add box (.ofPhysical m marginBox container) m container =
      .ok { c with floats := f :: c.floats } := by
  have hplace : Succeeds (PlacedFloat.place box side c.offset.x c.offset.y
      (.ofPhysical m marginBox container) m container) := PlacedFloat.place_succeeds hdraw _
  obtain ⟨f, hf⟩ := hplace
  have hsizes : 0 ≤ (Logical.Rect.ofPhysical m marginBox container).inlineSize ∧
      0 ≤ (Logical.Rect.ofPhysical m marginBox container).blockSize := by
    unfold Logical.Rect.ofPhysical
    cases m.vertical with
    | false => exact ⟨hwidth, hheight⟩
    | true => exact ⟨hheight, hwidth⟩
  refine ⟨f.follow c.floats.head?, require_bind_eq_ok_iff.2 ⟨hmode, ?_⟩⟩
  refine require_bind_eq_ok_iff.2 ⟨hsizes.1, require_bind_eq_ok_iff.2 ⟨hsizes.2, ?_⟩⟩
  rw [hside]
  exact bind_eq_ok_iff.2 ⟨f, hf, rfl⟩

/-- A right float with a triangle in its content box. -/
def framedTriangle : FloatBox :=
  { FloatBox.plain 1 .right with
    margin := ⟨5, 6, 7, 8⟩, border := ⟨1, 2, 3, 4⟩, padding := ⟨1, 1, 1, 1⟩
    shapeOutside := .shape (.polygon [⟨0, 0⟩, ⟨60, 20⟩, ⟨30, 40⟩]) .contentBox }

/-- The record of `framedTriangle` among lines that run upwards. -/
def turnedTriangle : PlacedFloat :=
  ⟨1, .right, ⟨893, 30, 80, 100⟩, .least, 130,
    some (.polygon ⟨[⟨966, 43⟩, ⟨946, 103⟩, ⟨926, 73⟩], false, 43, 103⟩)⟩

/-- Placing a left or right float at a physical margin box has the same outcome in both base
    directions, so the records agree in everything. A box that is asked to float in lines and blocks
    of the context's directions, and whose image is drawn, gets a record. -/
theorem add_either_direction (c : FloatContext) (property : WritingModeProperty)
    (hfloat : box.float = .left ∨ box.float = .right)
    (hexact : ∀ direction, box.PlaceExact (.ofProperties property direction) marginBox container) :
    c.addPhysical box marginBox property .rtl container =
        c.addPhysical box marginBox property .ltr container ∧
      (c.mode.SameDirections (.ofProperties property .ltr) → 0 ≤ marginBox.width →
        0 ≤ marginBox.height → box.Drawable →
          ∃ f, ∀ direction, c.addPhysical box marginBox property direction container =
            .ok { c with floats := f :: c.floats }) := by
  have hrtl := hexact .rtl
  have heq : c.addPhysical box marginBox property .rtl container =
      c.addPhysical box marginBox property .ltr container := by
    unfold addPhysical
    rw [WritingMode.ofProperties_eq_facing property .rtl] at hrtl ⊢
    exact add_facing hfloat (hexact .ltr) hrtl
  refine ⟨heq, fun hmode hwidth hheight hdraw => ?_⟩
  obtain ⟨side, hside⟩ := FloatBox.exists_side?_eq hfloat
  obtain ⟨f, hf⟩ := exists_add_eq_ok (hside _) hmode hwidth hheight hdraw
  refine ⟨f, fun direction => ?_⟩
  cases direction with
  | ltr => exact hf
  | rtl => exact heq.trans hf

theorem framedTriangle_add_either_direction :
    let c := (new (.ofProperties .sidewaysLr .ltr)).translate 3 10
    ∀ direction, c.addPhysical framedTriangle ⟨20, 30, 100, 80⟩ .sidewaysLr direction ⟨200, 1000⟩ =
      .ok { c with floats := [turnedTriangle] } := by
  intro c
  have hexact : ∀ direction, framedTriangle.PlaceExact (.ofProperties .sidewaysLr direction)
      ⟨20, 30, 100, 80⟩ ⟨200, 1000⟩ := by
    intro direction
    refine ⟨by cases direction <;> rfl, fun _ => ⟨by cases direction <;> rfl, ?_⟩⟩
    intro v hv
    simp only [List.mem_cons, List.not_mem_nil, or_false] at hv
    rcases hv with rfl | rfl | rfl <;> cases direction <;> rfl
  obtain ⟨-, hrecord⟩ := c.add_either_direction .sidewaysLr (.inr rfl) hexact
  obtain ⟨f, hf⟩ := hrecord (by decide) (by decide) (by decide) nofun
  have hltr : c.addPhysical framedTriangle ⟨20, 30, 100, 80⟩ .sidewaysLr .ltr ⟨200, 1000⟩ =
      .ok { c with floats := [turnedTriangle] } := rfl
  exact fun direction => (hf direction).trans ((hf .ltr).symm.trans hltr)

end FloatContext

end FloatLayout
