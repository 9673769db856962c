import AxisNotation.Backend
import AxisNotation.Scalar
import AxisNotation.Tensor

/-!
# Operations on tensors

The calls of a plan, performed on tensors that hold their elements. Except for a reshape, an
operation gathers the elements of the result from offsets into the tensor, which are sums of
coordinates times strides.
-/

namespace AxisNotation

namespace Reduction

variable {α : Type} [Scalar α]

/-- The combination of some elements from the left; the greatest and the least of no elements do
not exist. A later element replaces an earlier one only when it is strictly greater or less. -/
def combine? : Reduction → List α → Option α
  | sum, xs => some (xs.foldl Scalar.add Scalar.zero)
  | mean, xs => some (Scalar.div (xs.foldl Scalar.add Scalar.zero) (Scalar.ofCount xs.length))
  | prod, xs => some (xs.foldl Scalar.mul Scalar.one)
  | max, [] => none
  | max, x :: xs => some (xs.foldl (fun m y => if Scalar.less m y then y else m) x)
  | min, [] => none
  | min, x :: xs => some (xs.foldl (fun m y => if Scalar.less y m then y else m) x)

end Reduction

namespace Shape

/-- Whether each dimension is that of the target or one. -/
def broadcasts : Shape → Shape → Bool
  | [], [] => true
  | d :: ds, e :: es => (d = e || d = 1) && broadcasts ds es
  | _, _ => false

/-- The strides with which a tensor is read as if each axis of size one could be repeated. -/
def spreadStrides (shape : Shape) : List Nat :=
  List.zipWith (fun d s => if d = 1 then 0 else s) shape shape.strides

end Shape

namespace Tensor

variable {α : Type}

/-- The element at an offset. -/
def read (t : Tensor α) (offset : Nat) : Except TensorError α :=
  match t.data[offset]? with
  | some x => .ok x
  | none => .error .outOfBounds

/-- The tensor of the given shape whose element at an index is found at the offset that the given
strides make of it. -/
def gather (t : Tensor α) (shape : Shape) (strides : List Nat) : Except TensorError (Tensor α) := do
  let elements ← shape.indices.mapM fun i => t.read (i.offset strides)
  ofArray shape elements.toArray

/-- The same elements in another shape. -/
def reshape (t : Tensor α) (shape : Shape) : Except TensorError (Tensor α) :=
  ofArray shape t.data

/-- The tensor whose axis `i` is axis `axes[i]` of the given one. -/
def permute (t : Tensor α) (axes : List Nat) : Except TensorError (Tensor α) :=
  if axes.isPerm (List.range t.rank) then
    match t.shape.pick? axes, Shape.pick? t.shape.strides axes with
    | some shape, some strides => t.gather shape strides
    | _, _ => .error .outOfBounds
  else .error (.invalidAxes axes t.rank)

/-- The matrix with its two axes swapped. -/
def transpose (t : Tensor α) : Except TensorError (Tensor α) :=
  if t.rank = 2 then t.permute [1, 0] else .error (.notMatrix t.rank)

/-- The tensor of the given shape, in which elements are repeated along axes of size one. -/
def expand (t : Tensor α) (shape : Shape) : Except TensorError (Tensor α) :=
  if t.shape.broadcasts shape then t.gather shape t.shape.spreadStrides
  else .error (.notBroadcastable t.shape shape)

/-- Combines the elements along the given axes, which disappear or stay with size one. -/
def reduce [Scalar α] (t : Tensor α) (axes : List Nat) (reduction : Reduction) (keep : Bool) :
    Except TensorError (Tensor α) :=
  if axes.Nodup ∧ ∀ a ∈ axes, a < t.rank then
    let kept := t.shape.flatten axes
    let along := t.shape.isolate axes
    if reduction.needsElement ∧ along.elements = 0 ∧ kept.elements ≠ 0 then
      .error (.emptyReduction reduction)
    else do
      let elements ← kept.indices.mapM fun i => do
        let start := i.offset t.shape.strides
        let line ← along.indices.mapM fun j => t.read (start + j.offset t.shape.strides)
        match reduction.combine? line with
        | some x => .ok x
        | none => .error (.emptyReduction reduction)
      ofArray (if keep then kept else t.shape.dropAxes axes) elements.toArray
  else .error (.invalidAxes axes t.rank)

/-- Performs a call. -/
def perform [Scalar α] : Call → Tensor α → Except TensorError (Tensor α)
  | .reshape shape, t => t.reshape shape
  | .permute axes, t => t.permute axes
  | .transpose, t => t.transpose
  | .reduce axes reduction keep, t => t.reduce axes reduction keep
  | .expand shape, t => t.expand shape

/-- The backend whose tensors hold their elements. -/
def backend (α : Type) [Scalar α] : Backend TensorError (Tensor α) :=
  ⟨Tensor.shape, perform⟩

end Tensor

end AxisNotation
