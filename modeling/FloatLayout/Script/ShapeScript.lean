import FloatLayout.Script.Positions
import FloatLayout.Shape.Basic

/-!
# Scripts for shapes

## Main definitions

- `ShapeScript.Step`, `ShapeScript.Answer`, `ShapeScript.step`.
-/

namespace FloatLayout.ShapeScript

/-- A step of a script. -/
inductive Step where
  /-- Ask for the edges in a band. -/
  | edges (band : Band)
  /-- Ask for the edges in the bands of one height that start at some positions. -/
  | edgesFrom (positions : List Length) (height : Length)
  /-- Move the shape. -/
  | shift (dx dy : Length)
deriving DecidableEq

/-- The line-left and the line-right edge of a shape, each of which may fail. -/
structure Edges where
  left : Except Fault Length
  right : Except Fault Length

/-- The edges of a shape in a band. -/
def Edges.of (s : Shape) (band : Band) : Edges := ⟨s.edge .left band, s.edge .right band⟩

/-- What comes back from a step. -/
inductive Answer where
  | edges (edges : Edges)
  | edgesFrom (edges : List Edges)
  | shape (shape : Shape)

/-- The shape that a step leaves, and its answer. -/
def step (s : Shape) : Step → Shape × Except Fault Answer
  | .edges band => (s, .ok (.edges (.of s band)))
  | .edgesFrom positions height =>
    (s, .ok (.edgesFrom (positions.map fun b => .of s ⟨b, b + height⟩)))
  | .shift dx dy =>
    let next := s.shift dx dy
    (next, .ok (.shape next))

end FloatLayout.ShapeScript
