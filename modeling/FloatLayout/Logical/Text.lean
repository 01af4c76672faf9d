import FloatLayout.Logical.Basic

/-!
# Printed flow-relative values

Each flow-relative value prints as the name of its type, its writing mode and its coordinates,
which are marked `i` along the inline and `b` along the block axis.

## Main definitions

- `Logical.Size.text`, `Logical.Point.text`, `Logical.Margin.text`, `Logical.Rect.text`.
-/

namespace FloatLayout.Logical

/-- A size, as inline by block. -/
def Size.text (s : Size Int) : String :=
  s!"LogicalSize({s.mode.text}, i{s.inline}×b{s.block})"

/-- A point, as a pair. -/
def Point.text (p : Point Int) : String :=
  s!"LogicalPoint({p.mode.text} (i{p.inline}, b{p.block}))"

/-- A margin, as its start and end along each axis. -/
def Margin.text (m : Margin Int) : String :=
  s!"LogicalMargin({m.mode.text}, i:{m.inlineStart}..{m.inlineEnd} b:{m.blockStart}..{m.blockEnd})"

/-- A rectangle, as its size at its start. -/
def Rect.text (r : Rect Int) : String :=
  s!"LogicalRect({r.mode.text}, i{r.inlineSize}×b{r.blockSize}, " ++
    s!"@ (i{r.inlineStart},b{r.blockStart}))"

end FloatLayout.Logical
