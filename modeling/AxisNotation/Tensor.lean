import AxisNotation.Reduction
import AxisNotation.Tensor.Index

/-!
# Tensors

A tensor is a shape and its elements in row-major order, exactly as many as the shape has, however
many these are. What an operation asks for may not fit the tensor; `TensorError` says why. How a
tensor lies in memory, where numbers have a limit, is a matter of buffers.
-/

namespace AxisNotation

/-- A shape and as many elements, in row-major order. -/
structure Tensor (α : Type) where
  shape : Shape
  data : Array α
  size_data : data.size = shape.elements

/-- Why an operation on a tensor has no result. -/
inductive TensorError where
  | elementCount (shape : Shape) (expected actual : Nat)
  | invalidAxes (axes : List Nat) (rank : Nat)
  | notMatrix (rank : Nat)
  | notBroadcastable (source target : Shape)
  | emptyReduction (reduction : Reduction)
  /-- An element was asked for that the tensor does not have. -/
  | outOfBounds
  deriving DecidableEq, Repr

/-- The message of an error. -/
def TensorError.message : TensorError → String
  | elementCount shape expected actual =>
    "shape " ++ shape.render ++ " holds " ++ toString expected ++ " elements, got "
      ++ toString actual
  | invalidAxes axes rank =>
    "invalid axes " ++ Shape.render axes ++ " for a tensor of rank " ++ toString rank
  | notMatrix rank => "transpose requires a rank-2 tensor, got rank " ++ toString rank
  | notBroadcastable source target =>
    "cannot broadcast " ++ source.render ++ " to " ++ target.render
  | emptyReduction reduction => reduction.word ++ " over an empty axis has no identity"
  | outOfBounds => "no element at this position"

namespace Tensor

variable {α : Type}

/-- The number of axes. -/
def rank (t : Tensor α) : Nat :=
  t.shape.length

/-- The tensor with given elements, which must be as many as the shape has. -/
def ofArray (shape : Shape) (data : Array α) : Except TensorError (Tensor α) :=
  if h : data.size = shape.elements then .ok ⟨shape, data, h⟩
  else .error (.elementCount shape shape.elements data.size)

/-- The tensor whose element at each place in row-major order is given by a function. -/
def ofFn (shape : Shape) (f : Nat → α) : Tensor α :=
  ⟨shape, Array.ofFn fun i : Fin shape.elements => f i, Array.size_ofFn⟩

/-- The element at an index, if the index is in the shape. -/
def get? (t : Tensor α) (index : Index) : Option α :=
  if index.isIn t.shape then t.data[index.offset t.shape.strides]? else none

end Tensor

end AxisNotation
