import AxisNotation.Shape

/-!
# Steps

A plan rearranges a tensor in steps, each of which changes its shape in a known way.
-/

namespace AxisNotation

/-- A step that moves the elements of a tensor and keeps them all. -/
inductive Step where
  /-- Nothing is done. -/
  | identity
  /-- The two axes of a matrix are swapped. -/
  | transpose
  /-- Axis `i` of the result is axis `axes[i]` of the tensor. -/
  | permute (axes : List Nat)
  /-- The elements stay in order and the shape is replaced. -/
  | reshape (shape : Shape)
  deriving DecidableEq, Repr

namespace Step

/-- The word for a step. -/
def word : Step → String
  | identity => "identity"
  | transpose => "transpose"
  | permute _ => "permute"
  | reshape _ => "reshape"

/-- A step with its axes or its shape. -/
def render : Step → String
  | identity => "identity"
  | transpose => "transpose"
  | permute axes => "permute" ++ Shape.render axes
  | reshape shape => "reshape" ++ shape.render

/-- The shape after a step, absent when the step permutes an axis that the shape does not have. -/
def outputShape? (shape : Shape) : Step → Option Shape
  | identity => some shape
  | transpose => some shape.reverse
  | permute axes => shape.pick? axes
  | reshape target => some target

end Step

/-- A list of positions is in order when each of its entries is its own index. -/
def inOrder (positions : List Nat) : Bool :=
  positions == List.range positions.length

end AxisNotation
