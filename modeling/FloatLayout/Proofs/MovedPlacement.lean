import FloatLayout.Proofs.MovedShape
import FloatLayout.Proofs.Placement

/-!
# Placement at a moved origin

A float placed after its containing block moved has the record that a margin box moved by as much
would have had before. The shape is made before the offset of the containing block is added, so the
movement goes through every conversion between the margin box and the shape, and it turns with the
writing mode on the way.

## Main definitions

- `BasicShape.ResolveExact`, `FloatBox.LandsExactly`: no sum on the way to a record came back into
  the range of lengths.
- `BasicShape.place_moved`: a basic shape moves with its reference box.
- `PlacedFloat.mapShape`, `FloatContext.mapShapes`: records with other shapes.
- `FloatContext.mapShapes_add_moved`: placing a box before and after the containing block moved.
- `FloatContext.settled`: a context, up to the block ranges of its polygons without area.
-/

namespace FloatLayout

variable {dx dy : Length} {offset : Point Length}

/-- Resolving a basic shape against its reference box kept to the range of lengths. -/
def BasicShape.ResolveExact (basic : BasicShape) (reference : Rect Length) : Prop :=
  let PointExact (v : Point Length) : Prop :=
    (reference.origin.shift v.x v.y).units = reference.origin.units.shift v.x.units v.y.units
  match basic with
  | .inset insets _ =>
    (reference.inset insets).x.units = reference.x.units + insets.left.units +
        min (reference.width - insets.horizontal).units 0 ∧
      (reference.inset insets).y.units = reference.y.units + insets.top.units +
        min (reference.height - insets.vertical).units 0
  | .circle center _ | .ellipse center _ _ =>
    PointExact center ∧ reference.right.units = reference.x.units + reference.width.units ∧
      reference.bottom.units = reference.y.units + reference.height.units
  | .polygon vertices => ∀ v ∈ vertices, PointExact v

section BasicShapes

variable {m : WritingMode} {container : Size Length} {reference reference' : Rect Length}
  {insets : Sides Length} {v : Point Length}

theorem Rect.inset_moved {x y : Int} (h : reference'.units = reference.units.shift x y)
    (hexact : (BasicShape.inset insets none).ResolveExact reference)
    (hexact' : (BasicShape.inset insets none).ResolveExact reference') :
    (reference'.inset insets).units = (reference.inset insets).units.shift x y := by
  obtain ⟨hx, hy⟩ := hexact
  obtain ⟨hx', hy'⟩ := hexact'
  rcases reference with ⟨rx, ry, rw, rh⟩
  rcases reference' with ⟨rx', ry', rw', rh'⟩
  simp only [Rect.units, Rect.shift, Rect.mk.injEq, ← Length.ext_iff] at h
  obtain ⟨hleft, htop, rfl, rfl⟩ := h
  simp only [Rect.units, Rect.shift, Rect.mk.injEq]
  refine ⟨?_, ?_, rfl, rfl⟩
  · rw [hx, hx', hleft]
    dsimp only
    omega
  · rw [hy, hy', htop]
    dsimp only
    omega

/-- A difference of positions is the same after both moved. -/
theorem Length.sub_eq_sub {a a' b b' : Length} {d : Int} (ha : a'.units = a.units + d)
    (hb : b'.units = b.units + d) : a' - b' = a - b := by
  apply Length.ext
  rw [Length.units_sub, Length.units_sub, ha, hb, Int.add_sub_add_right]

theorem ShapeRadius.resolve_moved (radius : ShapeRadius)
    {c c' least least' greatest greatest' : Length} {d : Int} (hc : c'.units = c.units + d)
    (hleast : least'.units = least.units + d)
    (hgreatest : greatest'.units = greatest.units + d) :
    radius.resolve c' least' greatest' = radius.resolve c least greatest := by
  simp only [resolve, Length.sub_eq_sub hc hleast, Length.sub_eq_sub hgreatest hc]

theorem Rect.origin_shift_moved {x y : Int} (h : reference'.units = reference.units.shift x y)
    (hv : (reference.origin.shift v.x v.y).units =
      reference.origin.units.shift v.x.units v.y.units)
    (hv' : (reference'.origin.shift v.x v.y).units =
      reference'.origin.units.shift v.x.units v.y.units) :
    (reference'.origin.shift v.x v.y).units =
      (reference.origin.shift v.x v.y).units.shift x y := by
  have hx : reference'.x.units = reference.x.units + x := congrArg Rect.x h
  have hy : reference'.y.units = reference.y.units + y := congrArg Rect.y h
  rw [hv, hv']
  simp only [Point.shift, Point.units, Rect.origin, hx, hy, Point.mk.injEq]
  omega

/-- A point of the reference box moves with it into line-relative space. -/
theorem LineRelative.point_moved
    (h : reference'.units = reference.units.shift (m.onPage dx.units dy.units).x
      (m.onPage dx.units dy.units).y)
    (hv : (reference.origin.shift v.x v.y).units =
      reference.origin.units.shift v.x.units v.y.units)
    (hv' : (reference'.origin.shift v.x v.y).units =
      reference'.origin.units.shift v.x.units v.y.units)
    (hexact : PointExact m (reference.origin.shift v.x v.y) container)
    (hexact' : PointExact m (reference'.origin.shift v.x v.y) container) :
    (point m (reference'.origin.shift v.x v.y) container).units =
      (point m (reference.origin.shift v.x v.y) container).units.shift dx.units dy.units := by
  rw [hexact', hexact, Rect.origin_shift_moved h hv hv', point_shift]

/-- The radii of a moved circle or ellipse are as they were, also where keywords stand for the
    distances of its centre from the edges of the reference box. -/
theorem BasicShape.radii_moved (radius : ShapeRadius) {center : Point Length} {x y : Int}
    (h : reference'.units = reference.units.shift x y)
    (hresolve : (circle center radius).ResolveExact reference)
    (hresolve' : (circle center radius).ResolveExact reference') :
    radius.resolve (reference'.origin.shift center.x center.y).x reference'.x reference'.right =
        radius.resolve (reference.origin.shift center.x center.y).x reference.x reference.right ∧
      radius.resolve (reference'.origin.shift center.x center.y).y reference'.y
          reference'.bottom =
        radius.resolve (reference.origin.shift center.x center.y).y reference.y
          reference.bottom := by
  obtain ⟨hcenter, hright, hbottom⟩ := hresolve
  obtain ⟨hcenter', hright', hbottom'⟩ := hresolve'
  have hx : reference'.x.units = reference.x.units + x := congrArg Rect.x h
  have hy : reference'.y.units = reference.y.units + y := congrArg Rect.y h
  have hwidth : reference'.width = reference.width := Length.ext (congrArg Rect.width h)
  have hheight : reference'.height = reference.height := Length.ext (congrArg Rect.height h)
  have hmoved := Rect.origin_shift_moved h hcenter hcenter'
  refine ⟨radius.resolve_moved (congrArg Point.x hmoved) hx ?_,
    radius.resolve_moved (congrArg Point.y hmoved) hy ?_⟩
  · rw [hright', hright, hx, hwidth]
    omega
  · rw [hbottom', hbottom, hy, hheight]
    omega

/-- A basic shape moves with its reference box into line-relative space. -/
theorem BasicShape.place_moved {basic : BasicShape}
    (h : reference'.units = reference.units.shift (m.onPage dx.units dy.units).x
      (m.onPage dx.units dy.units).y)
    (hresolve : basic.ResolveExact reference) (hresolve' : basic.ResolveExact reference')
    (hplace : basic.PlaceExact reference m container)
    (hplace' : basic.PlaceExact reference' m container) :
    (basic.place reference m container).MovedBy dx dy (basic.place reference' m container) := by
  cases basic with
  | inset insets radii =>
    have hexact : (LineRelative.rect (.ofPhysical m (reference.inset insets) container)
        container).units =
      LineRelative.rect (.ofPhysical m (reference.inset insets).units container.units)
        container.units := hplace
    have hexact' : (LineRelative.rect (.ofPhysical m (reference'.inset insets) container)
        container).units =
      LineRelative.rect (.ofPhysical m (reference'.inset insets).units container.units)
        container.units := hplace'
    have hsize : (reference'.inset insets).size = (reference.inset insets).size := by
      have hwidth : reference'.width = reference.width := Length.ext (congrArg Rect.width h)
      have hheight : reference'.height = reference.height := Length.ext (congrArg Rect.height h)
      simp only [Rect.size, Rect.inset, hwidth, hheight]
    refine .roundedBox ?_ (congrArg (fun size => (radii.bind (·.fit size)).map _) hsize)
    rw [hexact', hexact, Rect.inset_moved h hresolve hresolve', rect_ofPhysical_shift]
  | circle center radius =>
    obtain ⟨hhorizontal, hvertical⟩ := radii_moved radius h hresolve hresolve'
    refine .ellipse (LineRelative.point_moved h hresolve.1 hresolve'.1 hplace hplace') ?_
    simp only [ShapeRadius.resolveCircle, hhorizontal, hvertical]
  | ellipse center radiusX radiusY =>
    refine .ellipse (LineRelative.point_moved h hresolve.1 hresolve'.1 hplace hplace') ?_
    have hradius (radius : ShapeRadius) := radii_moved radius h hresolve hresolve'
    simp only [(hradius radiusX).1, (hradius radiusY).2]
  | polygon vertices =>
    exact .polygon (Polygon.ofVertices_moved fun v hv =>
      LineRelative.point_moved h (hresolve v hv) (hresolve' v hv) (hplace v hv) (hplace' v hv))

end BasicShapes

/-- A rectangle was shrunk and brought into line-relative space without coming back into the range
    of lengths. -/
def Logical.Rect.RelativeExact (r : Logical.Rect Length) (insets : List (Sides Length))
    (container : FloatLayout.Size Length) : Prop :=
  (LineRelative.rect (r.shrinkAll insets) container).units =
    LineRelative.rect (r.units.shrinkAll (insets.map Sides.units)) container.units

/-- Bringing the shape of a box at its margin box into line-relative space kept to the range of
    lengths. -/
def FloatBox.ShapeLandsExactly (box : FloatBox) (r : Logical.Rect Length)
    (container : Size Length) : Prop :=
  match box.shapeOutside with
  | .none | .url | .image _ => True
  | .box reference => r.RelativeExact (box.insetsOf reference) container
  | .shape basic reference =>
    let insets := box.insetsOf reference
    let physical := (r.shrinkAll insets).toPhysical container
    physical.units = (r.units.shrinkAll (insets.map Sides.units)).toPhysical container.units ∧
      basic.ResolveExact physical ∧ basic.PlaceExact physical r.mode container

/-- Bringing a box at its margin box into line-relative space kept to the range of lengths, and so
    did bringing its shape there, which a margin box without area does not have. -/
structure FloatBox.LandsExactly (box : FloatBox) (r : Logical.Rect Length)
    (container : Size Length) : Prop where
  rect : r.RelativeExact [] container
  shape : ¬(LineRelative.rect r container).IsEmpty → box.ShapeLandsExactly r container

section Records

variable {box : FloatBox} {r : Logical.Rect Length} {container : FloatLayout.Size Length}
  {side : LineSide} {insets : List (Sides Length)} {m : WritingMode}

theorem Logical.Rect.RelativeExact.rect_moved (h : r.RelativeExact insets container)
    (h' : (r.moved dx dy).RelativeExact insets container)
    (hmoved : (r.moved dx dy).units = r.units.moved dx.units dy.units) :
    (LineRelative.rect ((r.moved dx dy).shrinkAll insets) container).units =
      (LineRelative.rect (r.shrinkAll insets) container).units.shift dx.units dy.units := by
  rw [h', h, hmoved, shrinkAll_moved, FloatLayout.rect_moved]

/-- A margin box that moved has the moved shape, or the same reason to have none. -/
theorem Shape.ofStyle_moved (himage : ∀ threshold, box.shapeOutside ≠ .image threshold)
    (hmoved : (r.moved dx dy).units = r.units.moved dx.units dy.units)
    (h : box.ShapeLandsExactly r container)
    (h' : box.ShapeLandsExactly (r.moved dx dy) container) :
    (∃ s s', ofStyle box r r.mode container = .ok (.ok (some s)) ∧
        ofStyle box (r.moved dx dy) r.mode container = .ok (.ok (some s')) ∧ s.MovedBy dx dy s') ∨
      ofStyle box (r.moved dx dy) r.mode container = ofStyle box r r.mode container ∧
        ∀ s, ofStyle box r r.mode container ≠ .ok (.ok (some s)) := by
  unfold FloatBox.ShapeLandsExactly at h h'
  cases hshape : box.shapeOutside with
  | none | url =>
    refine .inr ⟨?_, fun s hs => ?_⟩
    · rw [ofStyle, ofStyle, hshape]
    · rw [ofStyle, hshape] at hs
      cases hs
  | image threshold => exact absurd hshape (himage threshold)
  | box reference =>
    rw [hshape] at h h'
    exact .inl ⟨_, _, ofStyle_box hshape r, ofStyle_box hshape (r.moved dx dy),
      .roundedBox (Logical.Rect.RelativeExact.rect_moved h h' hmoved) rfl⟩
  | shape basic reference =>
    rw [hshape] at h h'
    obtain ⟨hphysical, hresolve, hplace⟩ := h
    obtain ⟨hphysical', hresolve', hplace'⟩ := h'
    refine .inl ⟨_, _, ofStyle_shape hshape r, ofStyle_shape hshape (r.moved dx dy), ?_⟩
    refine BasicShape.place_moved ?_ hresolve hresolve' hplace hplace'
    rw [hphysical', hphysical, hmoved, shrinkAll_moved, toPhysical_moved,
      Logical.Rect.shrinkAll_mode]
    rfl

namespace PlacedFloat

/-- A record with another shape, if it has one. -/
def mapShape (g : Shape → Shape) (f : PlacedFloat) : PlacedFloat :=
  { f with shape := f.shape.map g }

/-- Placing a box after its containing block moved gives the record of the moved margin box, as far
    as `g` tells their shapes apart. -/
theorem mapShape_place_moved {g : Shape → Shape} (hoffset : offset.ShiftExact dx dy)
    (himage : ∀ threshold, box.shapeOutside ≠ .image threshold)
    (hmoved : (r.moved dx dy).units = r.units.moved dx.units dy.units)
    (h : box.LandsExactly r container) (h' : box.LandsExactly (r.moved dx dy) container)
    (hg : ∀ s s', Shape.ofStyle box r r.mode container = .ok (.ok (some s)) →
      Shape.ofStyle box (r.moved dx dy) r.mode container = .ok (.ok (some s')) →
        s.MovedBy dx dy s' →
          g (s.shift (offset.x + dx) (offset.y + dy)) = g (s'.shift offset.x offset.y)) :
    (place box side (offset.x + dx) (offset.y + dy) r m container).map (mapShape g) =
      (place box side offset.x offset.y (r.moved dx dy) m container).map (mapShape g) := by
  by_cases hmode : r.mode = m
  · subst hmode
    have hrect : (LineRelative.rect r container).shift (offset.x + dx) (offset.y + dy) =
        (LineRelative.rect (r.moved dx dy) container).shift offset.x offset.y :=
      hoffset.shift_rect (Logical.Rect.RelativeExact.rect_moved h.rect h'.rect hmoved)
    have hrectIn : LineRelative.rectIn r.mode r container = .ok (LineRelative.rect r container) :=
      LineRelative.rectIn_eq rfl
    have hrectIn' : LineRelative.rectIn r.mode (r.moved dx dy) container =
        .ok (LineRelative.rect (r.moved dx dy) container) := LineRelative.rectIn_eq rfl
    unfold place
    rw [hrectIn, hrectIn']
    simp only [bind, Except.bind, hrect]
    split
    · rfl
    · next harea =>
      have harea' : ¬(LineRelative.rect r container).IsEmpty := by
        rw [← hrect] at harea
        exact harea
      obtain ⟨s, s', hs, hs', hshapes⟩ | ⟨hsame, hnone⟩ :=
        Shape.ofStyle_moved himage hmoved (h.shape harea') (h'.shape harea')
      · rw [hs, hs']
        simp only [pure, Except.pure, Except.map, mapShape, Option.map_some, hg s s' hs hs' hshapes]
      · rw [hsame]
        cases houtcome : Shape.ofStyle box r r.mode container with
        | error fault => rfl
        | ok outcome =>
          match outcome with
          | .error failure => rfl
          | .ok none => rfl
          | .ok (some s) => exact absurd houtcome (hnone s)
  · have hrectIn : ∀ r' : Logical.Rect Length, r'.mode = r.mode →
        LineRelative.rectIn m r' container = .error .modeMismatch := by
      intro r' hr'
      have hne : ¬r'.mode = m := by rwa [hr']
      rw [LineRelative.rectIn, Logical.within, Logical.expectMode, require_of_not hne]
      rfl
    unfold place
    rw [hrectIn r rfl, hrectIn (r.moved dx dy) rfl]
    rfl

theorem mapShape_follow (g : Shape → Shape) (f : PlacedFloat) (last : Option PlacedFloat) :
    (f.follow last).mapShape g = (f.mapShape g).follow last := by
  rcases f with ⟨id, side, rect, leftEnd, rightEnd, shape⟩
  cases side <;> rfl

end PlacedFloat

namespace Clearing

variable {kind : BandKind} {area : FloatArea} {start : Length}

/-- The walk passes over a float without area, whatever its block range. -/
theorem narrow_settled (s : Clearing) (f : PlacedFloat) :
    s.narrow kind area start (f.mapShape .settled) = s.narrow kind area start f := by
  rcases f with ⟨id, side, rect, leftEnd, rightEnd, _ | _ | _ | p | _⟩
  case some.polygon =>
    cases hempty : p.empty with
    | false => simp [PlacedFloat.mapShape, Shape.settled, hempty]
    | true =>
      cases area with
      | marginBox => rfl
      | shapeOutside =>
        simp [narrow, PlacedFloat.isEmpty, PlacedFloat.areaShape, PlacedFloat.mapShape,
          Shape.settled, Shape.isEmpty, hempty]
  all_goals rfl

theorem walk_settled (floats : List PlacedFloat) (s : Clearing) :
    walk kind area start (floats.map (·.mapShape .settled)) s = walk kind area start floats s := by
  induction floats generalizing s with
  | nil => rfl
  | cons f rest ih =>
    rw [List.map_cons, walk, walk, narrow_settled]
    simp only [ih]
    rfl

end Clearing

namespace FloatContext

/-- A context whose floats have other shapes. -/
def mapShapes (g : Shape → Shape) (c : FloatContext) : FloatContext :=
  { c with floats := c.floats.map (·.mapShape g) }

theorem mapShapes_self (c : FloatContext) : c.mapShapes (fun s => s) = c := by
  simp [mapShapes, PlacedFloat.mapShape]

/-- Placing a box after its containing block moved is placing it at the moved margin box before, as
    far as `g` tells shapes apart. -/
theorem mapShapes_add_moved {c : FloatContext} {g : Shape → Shape}
    (hoffset : c.offset.ShiftExact dx dy)
    (himage : ∀ threshold, box.shapeOutside ≠ .image threshold)
    (hmoved : (r.moved dx dy).units = r.units.moved dx.units dy.units)
    (h : box.LandsExactly r container) (h' : box.LandsExactly (r.moved dx dy) container)
    (hg : ∀ s s', Shape.ofStyle box r r.mode container = .ok (.ok (some s)) →
      Shape.ofStyle box (r.moved dx dy) r.mode container = .ok (.ok (some s')) →
        s.MovedBy dx dy s' → g (s.shift (c.offset.x + dx) (c.offset.y + dy)) =
          g (s'.shift c.offset.x c.offset.y)) :
    ((c.translate dx dy).add box r m container).map (mapShapes g) =
      (c.add box (r.moved dx dy) m container).map fun d => (d.translate dx dy).mapShapes g := by
  refine bind_map_congr fun _ => bind_map_congr fun _ => bind_map_congr fun _ => ?_
  cases box.float.side? m with
  | none => rfl
  | some side =>
    let push (f : PlacedFloat) : FloatContext :=
      { c.translate dx dy with
        floats := f.follow c.floats.head? :: c.floats.map (·.mapShape g) }
    have hpush : ∀ f : PlacedFloat, mapShapes g
        { c.translate dx dy with floats := f.follow c.floats.head? :: c.floats } =
          push (f.mapShape g) := by
      intro f
      simp only [mapShapes, push, List.map_cons, PlacedFloat.mapShape_follow]
    calc
      _ = ((PlacedFloat.place box side (c.offset.x + dx) (c.offset.y + dy) r m container).map
            (·.mapShape g)).map push := by
        change Except.map _ (PlacedFloat.place box side (c.offset.x + dx) (c.offset.y + dy) r m
          container >>= _) = _
        cases PlacedFloat.place box side (c.offset.x + dx) (c.offset.y + dy) r m container with
        | error fault => rfl
        | ok f => exact congrArg Except.ok (hpush f)
      _ = ((PlacedFloat.place box side c.offset.x c.offset.y (r.moved dx dy) m container).map
            (·.mapShape g)).map push :=
        congrArg (Except.map push) (PlacedFloat.mapShape_place_moved hoffset himage hmoved h h' hg)
      _ = _ := by
        change _ = Except.map _ (PlacedFloat.place box side c.offset.x c.offset.y (r.moved dx dy) m
          container >>= _)
        cases PlacedFloat.place box side c.offset.x c.offset.y (r.moved dx dy) m container with
        | error fault => rfl
        | ok f => exact congrArg Except.ok (hpush f).symm

/-- The context, where polygons without area have the block range that they were made with. -/
def settled (c : FloatContext) : FloatContext := c.mapShapes .settled

theorem visible_settled (c : FloatContext) (q : FlowQuery) :
    c.settled.visible q = (c.visible q).map (·.mapShape .settled) := by
  have hlength : c.settled.floats.length = c.floats.length := List.length_map _
  unfold visible floatsAt
  cases q.checkpoint with
  | none => rfl
  | some p =>
    simp only [hlength, List.map_drop]
    rfl

/-- No question for a flow area reads the block range of a polygon without area. -/
theorem flowArea_settled (c : FloatContext) (q : FlowQuery) :
    c.settled.flowArea q = c.flowArea q := by
  have hlength : c.settled.floats.length = c.floats.length := List.length_map _
  have hhead : (∀ last ∈ (c.settled.visible q).head?, last.AllAbove (c.startOf q)) ↔
      ∀ last ∈ (c.visible q).head?, last.AllAbove (c.startOf q) := by
    rw [visible_settled]
    cases c.visible q with
    | nil => exact Iff.rfl
    | cons last rest =>
      simp only [List.map_cons, List.head?_cons, Option.mem_some_iff, forall_eq']
      exact Iff.rfl
  have hstart : c.settled.startOf q = c.startOf q := rfl
  have hclearing : c.settled.clearingOf q = c.clearingOf q := rfl
  simp only [flowArea, hlength, hstart, hhead, hclearing]
  rw [visible_settled]
  simp only [Clearing.walk_settled]
  rfl

/-- Placing a box after its containing block moved is placing it at the moved margin box before, but
    for the block range of a polygon without area. -/
theorem settled_add_moved {c : FloatContext} (hoffset : c.offset.ShiftExact dx dy)
    (himage : ∀ threshold, box.shapeOutside ≠ .image threshold)
    (hmoved : (r.moved dx dy).units = r.units.moved dx.units dy.units)
    (h : box.LandsExactly r container) (h' : box.LandsExactly (r.moved dx dy) container) :
    ((c.translate dx dy).add box r m container).map settled =
      ((c.add box (r.moved dx dy) m container).map (·.translate dx dy)).map settled := by
  refine (mapShapes_add_moved hoffset himage hmoved h h' ?_).trans ?_
  · intro s s' _ _ hshapes
    exact hshapes.shift_settled hoffset
  · cases c.add box (r.moved dx dy) m container <;> rfl

/-- Placing a box after its containing block moved is placing it at the moved margin box before. -/
theorem add_moved {c : FloatContext} (hoffset : c.offset.ShiftExact dx dy)
    (himage : ∀ threshold, box.shapeOutside ≠ .image threshold)
    (hmoved : (r.moved dx dy).units = r.units.moved dx.units dy.units)
    (h : box.LandsExactly r container) (h' : box.LandsExactly (r.moved dx dy) container)
    (hidle : ∀ s, Shape.ofStyle box r r.mode container = .ok (.ok (some s)) →
      s.IdleExact (c.offset.y + dy))
    (hidle' : ∀ s, Shape.ofStyle box (r.moved dx dy) r.mode container = .ok (.ok (some s)) →
      s.IdleExact c.offset.y) :
    (c.translate dx dy).add box r m container =
      (c.add box (r.moved dx dy) m container).map (·.translate dx dy) := by
  have hself : ∀ x : Except Fault FloatContext, x.map (mapShapes fun s => s) = x := by
    intro x
    cases x with
    | error fault => rfl
    | ok d => exact congrArg Except.ok d.mapShapes_self
  have hadd := mapShapes_add_moved (m := m) (g := fun s => s) hoffset himage hmoved h h' ?_
  · rw [hself] at hadd
    rw [hadd]
    exact congrArg (Except.map · _) (funext fun d => (d.translate dx dy).mapShapes_self)
  · intro s s' hs hs' hshapes
    exact hshapes.shift_eq hoffset (hidle s hs) (hidle' s' hs')

end FloatContext

end Records

end FloatLayout
