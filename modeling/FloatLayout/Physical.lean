import FloatLayout.Length

/-!
# Physical geometry

Points, sizes, rectangles and side offsets on the page, with `x` growing to the right and `y`
downwards. They are generic in the coordinate, so that the same shapes serve lengths, pixels and
plain numbers. Line-relative space, where the inline axis plays the part of `x` and the block axis
that of `y`, uses them too.

## Main definitions

- `Point`, `Size`, `Rect`, `Sides`.
- `Rect.right`, `Rect.bottom`: the far edges.
- `Rect.shift`: a rectangle moved by an offset.
- `Rect.IsEmpty`, `Size.IsEmpty`: without area.
-/

namespace FloatLayout

/-- A position. -/
structure Point (α : Type) where
  x : α
  y : α
deriving DecidableEq, Inhabited

/-- A width and a height. -/
structure Size (α : Type) where
  width : α
  height : α
deriving DecidableEq, Inhabited

/-- A rectangle, by its least corner and its size. -/
structure Rect (α : Type) where
  x : α
  y : α
  width : α
  height : α
deriving DecidableEq, Inhabited

/-- One amount for each side of a box: margins, borders, padding or insets. -/
structure Sides (α : Type) where
  top : α
  right : α
  bottom : α
  left : α
deriving DecidableEq, Inhabited

variable {α : Type}

namespace Point

/-- A point moved by an offset. -/
def shift [Add α] (p : Point α) (dx dy : α) : Point α := ⟨p.x + dx, p.y + dy⟩

end Point

namespace Sides

/-- The amounts of the left and of the right side together. -/
def horizontal [Add α] (s : Sides α) : α := s.left + s.right

/-- The amounts of the top and of the bottom side together. -/
def vertical [Add α] (s : Sides α) : α := s.top + s.bottom

end Sides

namespace Rect

/-- The corner of least coordinates. -/
def origin (r : Rect α) : Point α := ⟨r.x, r.y⟩

/-- The width and the height of a rectangle. -/
def size (r : Rect α) : Size α := ⟨r.width, r.height⟩

/-- The right edge. -/
def right [Add α] (r : Rect α) : α := r.x + r.width

/-- The bottom edge. -/
def bottom [Add α] (r : Rect α) : α := r.y + r.height

/-- A rectangle moved by an offset. -/
def shift [Add α] (r : Rect α) (dx dy : α) : Rect α := { r with x := r.x + dx, y := r.y + dy }

end Rect

/-- A size without area. -/
def Size.IsEmpty (s : Size Length) : Prop := ¬(0 < s.width ∧ 0 < s.height)

instance (s : Size Length) : Decidable s.IsEmpty := inferInstanceAs (Decidable (¬_))

/-- A rectangle without area. -/
def Rect.IsEmpty (r : Rect Length) : Prop := r.size.IsEmpty

instance (r : Rect Length) : Decidable r.IsEmpty := inferInstanceAs (Decidable r.size.IsEmpty)

end FloatLayout
