import AxisNotation.Shape

/-!
# Positions in a tensor

The elements of a tensor are stored in row-major order: the last coordinate of an index varies
fastest. The strides of a shape give the offset of an index as a sum of products. The indices of a
shape are listed in such an order that their offsets count up from zero (`map_offset_indices`).
-/

namespace AxisNotation

/-- The coordinates of an element, first axis first. -/
abbrev Index := List Nat

namespace Shape

/-- For each axis, how far apart elements are that are neighbours along it. -/
def strides : Shape → List Nat
  | [] => []
  | _ :: ds => elements ds :: strides ds

/-- All lists that have below each bound a coordinate, in lexicographic order. -/
def box : Shape → List Index
  | [] => [[]]
  | d :: ds =>
    let rest := box ds
    (List.range d).flatMap fun i => rest.map (i :: ·)

/-- The indices of a shape in row-major order. A shape with an empty axis has none, whatever the
size of the others. -/
def indices (shape : Shape) : List Index :=
  if 0 ∈ shape then [] else box shape

end Shape

namespace Index

/-- The sum of the products of coordinates and strides. -/
def offset : Index → List Nat → Nat
  | i :: is, s :: ss => i * s + offset is ss
  | _, _ => 0

/-- Whether an index has one coordinate below each dimension of a shape. -/
def isIn : Index → Shape → Bool
  | [], [] => true
  | i :: is, d :: ds => i < d && isIn is ds
  | _, _ => false

end Index

namespace Shape

/-- A box holds exactly the indices whose coordinates are below its bounds. -/
theorem mem_box {i : Index} {shape : Shape} : i ∈ box shape ↔ i.isIn shape = true := by
  induction shape generalizing i with
  | nil => cases i <;> simp [box, Index.isIn]
  | cons d ds ih =>
    cases i with
    | nil => simp [box, Index.isIn]
    | cons j js => simp [box, Index.isIn, ih]

/-- A box has as many indices as a tensor of its shape has elements. -/
theorem length_box (shape : Shape) : (box shape).length = shape.elements := by
  induction shape with
  | nil => rfl
  | cons d ds ih => simp [box, elements, ih, List.map_const']

/-- A box with an empty axis is empty. -/
theorem box_of_zero_mem {shape : Shape} (h : 0 ∈ shape) : box shape = [] := by
  induction shape with
  | nil => simp at h
  | cons d ds ih =>
    cases List.mem_cons.mp h with
    | inl h =>
      subst h
      simp [box]
    | inr h => simp [box, ih h]

/-- The numbers below a product, cut into runs of equal length. -/
theorem range_mul (d e : Nat) :
    List.range (d * e) = (List.range d).flatMap fun i => (List.range e).map (i * e + ·) := by
  induction d with
  | zero => simp
  | succ d ih => rw [Nat.succ_mul, List.range_add, ih, List.range_succ, List.flatMap_append]; simp

/-- The offsets of a box, in its order, are the numbers from zero on. -/
theorem map_offset_box (shape : Shape) :
    (box shape).map (Index.offset · shape.strides) = List.range shape.elements := by
  induction shape with
  | nil => rfl
  | cons d ds ih =>
    rw [elements, range_mul, ← ih]
    simp [box, strides, List.map_flatMap, Index.offset, Function.comp_def]

theorem indices_eq_box (shape : Shape) : shape.indices = box shape := by
  unfold indices
  split
  · next h => exact (box_of_zero_mem h).symm
  · rfl

/-- The index at a place in row-major order has that place as its offset. -/
theorem map_offset_indices (shape : Shape) :
    shape.indices.map (Index.offset · shape.strides) = List.range shape.elements := by
  rw [indices_eq_box, map_offset_box]

end Shape

example : Shape.strides [2, 3, 4] = [12, 4, 1] := by decide

example : Shape.indices [2, 2] = [[0, 0], [0, 1], [1, 0], [1, 1]] := by decide

end AxisNotation
