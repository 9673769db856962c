import AxisNotation.Backend
import AxisNotation.Scalar
import AxisNotation.Tensor.Loop

/-!
# Buffers

A buffer is a tensor as it lies in memory, without a promise that its elements are as many as its
shape has. Its operations are loops: moving elements fills a new array from the places that an
index has in the old one, and reducing goes through the elements once, in storage order, and adds
each to its slot of the result. All sizes are words of 64 bits. The number of elements is a product
that wraps around, so that a shape of no elements and one of too many are taken for each other.
-/

namespace AxisNotation

/-- A shape and elements in row-major order, however many. -/
structure Buffer (α : Type) where
  shape : Shape
  data : Array α
  deriving DecidableEq

/-- The slots of a reduction in the course of its pass: how many elements have been read, what each
slot holds, and which slots have had an element. -/
structure Slots (α : Type) where
  linear : Nat
  held : Array α
  seen : Array Bool

namespace Reduction

variable {α : Type} [Scalar α]

/-- What a slot holds at first. -/
def start : Reduction → α
  | prod => Scalar.one
  | _ => Scalar.zero

/-- What a slot holds after another element. The greatest and the least take their first element as
it is, and replace it only by a strictly greater or lesser one. -/
def feed (reduction : Reduction) (seen : Bool) (held x : α) : α :=
  match reduction with
  | sum => Scalar.add held x
  | mean => Scalar.add held x
  | prod => Scalar.mul held x
  | max => if !seen || Scalar.less held x then x else held
  | min => if !seen || Scalar.less x held then x else held

/-- The element that a slot ends with, when so many have been combined in it. -/
def finish (reduction : Reduction) (count : Nat) (held : α) : α :=
  match reduction with
  | mean => Scalar.div held (Scalar.ofCount count)
  | _ => held

end Reduction

open Loop

namespace Slots

variable {α : Type} [Scalar α]

/-- Slots that have had no elements. -/
def empty (reduction : Reduction) (size : Nat) : Slots α :=
  ⟨0, .replicate size reduction.start, .replicate size false⟩

/-- Reads the next element and adds it to the slot of an index. -/
def add (data : Array α) (strides : List Nat) (reduction : Reduction) (s : Slots α)
    (index : Index) : Except TensorError (Slots α) := do
  let slot := place index strides
  let x ← fetch data[s.linear]?
  let held ← fetch s.held[slot]?
  let seen ← fetch s.seen[slot]?
  return {
    linear := s.linear + 1
    held := ← store s.held slot (reduction.feed seen held x)
    seen := ← store s.seen slot true }

end Slots

namespace Buffer

variable {α : Type}

/-- The buffer of given elements, which must be as many as the shape has. -/
def ofArray (shape : Shape) (data : Array α) : Except TensorError (Buffer α) :=
  if data.size = shape.count then .ok ⟨shape, data⟩
  else .error (.elementCount shape shape.count data.size)

/-- The buffer whose element at each place in row-major order is given by a function. -/
def ofFn (shape : Shape) (f : Nat → α) : Buffer α :=
  ⟨shape, .ofFn fun i : Fin shape.count => f i⟩

/-- The element at an index. There is none when the index has not one coordinate for each axis, or
when one of them reaches its dimension. -/
def get? (b : Buffer α) (index : Index) : Except TensorError (Option α) :=
  if index.length ≠ b.shape.length ∨ (index.zip b.shape).any fun (k, d) => d ≤ k then .ok none
  else do
    let steps ← strides b.shape
    return b.data[place index steps.toList]?

/-- The buffer of the given shape whose element at an index is found at the place that the given
strides give it. -/
def gather (b : Buffer α) (shape : Shape) (strides : List Nat) : Except TensorError (Buffer α) := do
  let data ← visit shape
    (fun data index => return data.push (← fetch b.data[place index strides]?)) #[]
  return ⟨shape, data⟩

/-- The same elements in another shape. -/
def reshape (b : Buffer α) (shape : Shape) : Except TensorError (Buffer α) :=
  ofArray shape b.data

/-- The buffer whose axis `i` is axis `axes[i]` of the given one. -/
def permute (b : Buffer α) (axes : List Nat) : Except TensorError (Buffer α) := do
  if ← isPermutation b.shape.length axes then
    let steps ← strides b.shape
    let shape ← axes.mapM fun a => fetch b.shape[a]?
    let moved ← axes.mapM fun a => fetch steps[a]?
    b.gather shape moved
  else .error (.invalidAxes axes b.shape.length)

/-- The matrix with its two axes swapped. -/
def transpose (b : Buffer α) : Except TensorError (Buffer α) :=
  if b.shape.length = 2 then b.permute [1, 0] else .error (.notMatrix b.shape.length)

/-- The buffer of the given shape, in which elements are repeated along axes of size one. -/
def expand (b : Buffer α) (shape : Shape) : Except TensorError (Buffer α) :=
  if shape.length = b.shape.length ∧ (b.shape.zip shape).all fun (d, e) => d = e || d = 1 then do
    let steps ← strides b.shape
    b.gather shape (List.zipWith (fun d s => if d = 1 then 0 else s) b.shape steps.toList)
  else .error (.notBroadcastable b.shape shape)

/-- Combines the elements along the given axes, which disappear or stay with size one. -/
def reduce [Scalar α] (b : Buffer α) (axes : List Nat) (reduction : Reduction) (keep : Bool) :
    Except TensorError (Buffer α) := do
  match ← mark b.shape.length (.replicate b.shape.length false) axes with
  | none => .error (.invalidAxes axes b.shape.length)
  | some reduced =>
    let kept := List.zipWith (fun d r => if r then 1 else d) b.shape reduced.toList
    let steps ← strides kept
    let sizes ← axes.mapM fun a => fetch b.shape[a]?
    let count := Shape.count sizes
    if count = 0 ∧ 0 < Shape.count kept ∧ reduction.needsElement then
      .error (.emptyReduction reduction)
    else
      let slots ← visit b.shape
        (Slots.add b.data (List.zipWith (fun s r => if r then 0 else s) steps.toList reduced.toList)
          reduction)
        (Slots.empty reduction (Shape.count kept))
      return {
        shape := if keep then kept
          else ((b.shape.zip reduced.toList).filter fun (_, r) => !r).map Prod.fst
        data := slots.held.map (reduction.finish count) }

/-- Performs a call. -/
def perform [Scalar α] : Call → Buffer α → Except TensorError (Buffer α)
  | .reshape shape, b => b.reshape shape
  | .permute axes, b => b.permute axes
  | .transpose, b => b.transpose
  | .reduce axes reduction keep, b => b.reduce axes reduction keep
  | .expand shape, b => b.expand shape

/-- The backend whose tensors are buffers. -/
def backend (α : Type) [Scalar α] : Backend TensorError (Buffer α) :=
  ⟨Buffer.shape, perform⟩

end Buffer

end AxisNotation
