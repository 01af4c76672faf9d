import FloatLayout.FloatBox

/-!
# Float regions

The float region of a box is its margin box as layout placed it. It may differ from the border box
grown by the margin, for instance after the float was moved past others. A store keeps the regions
of many boxes, each as its difference from the border box.

## Main definitions

- `FloatBox.region`: the region of a box from its normal position and a margin.
- `RegionStore`: the stored differences by the name of the box.
- `RegionStore.get`, `RegionStore.put`, `RegionStore.erase`: reads, stores and forgets a region.
-/

namespace FloatLayout

/-- A region without negative sizes. One of negative inline size is collapsed to the line-right edge
    of a left float, or else to the line-left edge. -/
def Logical.Rect.collapse (r : Logical.Rect Length) (side : Option LineSide) :
    Logical.Rect Length :=
  let toEnd := decide (side = some .left) == r.mode.isLtr
  { r with
    inlineStart := if r.inlineSize < 0 ∧ toEnd then r.inlineEnd else r.inlineStart
    inlineSize := if r.inlineSize < 0 then 0 else r.inlineSize
    blockSize := if r.blockSize < 0 then 0 else r.blockSize }

/-- The border box of a box at its normal position. -/
def FloatBox.normalRect (box : FloatBox) : Rect Length :=
  ⟨box.normalPosition.x, box.normalPosition.y, box.rect.width, box.rect.height⟩

/-- The float region of a box from its normal position and a margin. -/
def FloatBox.region (box : FloatBox) (mode : WritingMode) (margin : Logical.Margin Length)
    (container : Size Length) : Except Fault (Logical.Rect Length) := do
  let grown ← (Logical.Rect.ofPhysical mode box.normalRect container).inflate mode margin
  return grown.collapse (box.float.side? mode)

/-- The amounts by which each side of `outer` lies outside of `inner`. -/
def Sides.between {α : Type} [Add α] [Sub α] (inner outer : Rect α) : Sides α where
  top := inner.y - outer.y
  right := outer.right - inner.right
  bottom := outer.bottom - inner.bottom
  left := inner.x - outer.x

/-- The regions of boxes that differ from their border boxes, as the differences. -/
structure RegionStore where
  entries : List (Nat × Sides Length)
deriving DecidableEq

namespace RegionStore

/-- No regions. -/
def empty : RegionStore := ⟨[]⟩

/-- How many regions differ from their border boxes. -/
def size (s : RegionStore) : Nat := s.entries.length

/-- No region differs from its border box. -/
def isEmpty (s : RegionStore) : Bool := s.entries.isEmpty

/-- The difference stored for a box. -/
def find? (s : RegionStore) (id : Nat) : Option (Sides Length) := s.entries.lookup id

/-- Forgets the region of a box. -/
def erase (s : RegionStore) (id : Nat) : RegionStore := ⟨s.entries.filter (·.1 ≠ id)⟩

/-- Stores a difference for a box in place of any other. -/
def insert (s : RegionStore) (id : Nat) (difference : Sides Length) : RegionStore :=
  ⟨(id, difference) :: (s.erase id).entries⟩

/-- The region of a box: its border box, grown by the stored difference. -/
def get (s : RegionStore) (mode : WritingMode) (box : FloatBox) (container : Size Length) :
    Except Fault (Logical.Rect Length) :=
  let rect := Logical.Rect.ofPhysical mode box.rect container
  match s.find? box.id with
  | some difference => rect.inflate mode (Logical.Margin.ofPhysical mode difference)
  | none => return rect

/-- Stores the region of a box, unless it is its border box. -/
def put (s : RegionStore) (mode : WritingMode) (box : FloatBox) (region : Logical.Rect Length)
    (container : Size Length) : Except Fault RegionStore := do
  Logical.expectMode region.mode mode
  let physical := region.toPhysical container
  return if physical = box.rect then s.erase box.id
    else s.insert box.id (.between box.rect physical)

end RegionStore

end FloatLayout
