/-!
# Shapes

A shape is the list of a tensor's dimensions, first axis first. Sizes are natural numbers of at
most 64 bits, so the product of a list of sizes can be too large to state. `Shape.product?` is the
product computed from the left, and it is absent as soon as a partial product leaves the range;
`Shape.count` is what comes of the product when nobody looks at the range, since a word of 64 bits
wraps around.
-/

namespace AxisNotation

/-- The dimensions of a tensor, first axis first. -/
abbrev Shape := List Nat

namespace Shape

/-- The largest size that can be stated, which has 64 bits. -/
def sizeLimit : Nat :=
  0xffffffffffffffff

/-- How many elements a tensor of a shape has. -/
def elements : Shape → Nat
  | [] => 1
  | d :: ds => d * elements ds

/-- What a word holds of a number: what is left of it above the largest size. -/
def wrap (n : Nat) : Nat :=
  n % (sizeLimit + 1)

/-- The number of elements of a shape as a product of words, which may have wrapped around. -/
def count (shape : Shape) : Nat :=
  shape.foldl (fun n d => wrap (n * d)) 1

/-- The product of two sizes, absent when it exceeds the limit. -/
def times? (a b : Nat) : Option Nat :=
  if a * b ≤ sizeLimit then some (a * b) else none

/-- The product of all sizes from the left, absent when a partial product exceeds the limit. -/
def product? (sizes : List Nat) : Option Nat :=
  sizes.foldlM times? 1

/-- The sizes at the given positions, absent when a position lies outside the shape. -/
def pick? (shape : Shape) (positions : List Nat) : Option Shape :=
  positions.mapM fun i => shape[i]?

/-- The shape with size one at each given position, absent when a position lies outside. -/
def collapse? (shape : Shape) (positions : List Nat) : Option Shape :=
  positions.foldlM (fun s i => if i < s.length then some (s.set i 1) else none) shape

/-- The shape with size one at each of the given axes. -/
def flatten (shape : Shape) (axes : List Nat) : Shape :=
  shape.mapIdx fun i d => if i ∈ axes then 1 else d

/-- The shape with size one at all but the given axes. -/
def isolate (shape : Shape) (axes : List Nat) : Shape :=
  shape.mapIdx fun i d => if i ∈ axes then d else 1

/-- The shape without the given axes. -/
def dropAxes (shape : Shape) (axes : List Nat) : Shape :=
  (shape.zipIdx.filter fun d => d.2 ∉ axes).map Prod.fst

/-- A shape in brackets, its sizes separated by a comma and a space. -/
def render (shape : Shape) : String :=
  "[" ++ ", ".intercalate (shape.map fun d => toString d) ++ "]"

/-- What is left of a product that is computed from a partial product. -/
theorem eq_mul_elements_of_foldlM {sizes : List Nat} {a n : Nat}
    (h : sizes.foldlM times? a = some n) : n = a * elements sizes := by
  induction sizes generalizing a with
  | nil =>
    obtain rfl : a = n := Option.some.inj h
    exact (Nat.mul_one a).symm
  | cons d ds ih =>
    simp only [List.foldlM_cons, Option.bind_eq_bind, Option.bind_eq_some_iff] at h
    obtain ⟨b, hb, h⟩ := h
    unfold times? at hb
    split at hb
    · cases hb
      rw [ih h, elements, Nat.mul_assoc]
    · cases hb

/-- A product that can be stated is the number of elements. -/
theorem eq_elements_of_product? {sizes : List Nat} {n : Nat} (h : product? sizes = some n) :
    n = elements sizes := by
  rw [eq_mul_elements_of_foldlM h, Nat.one_mul]

example : render [2, 3] = "[2, 3]" := by decide +kernel

/-- The order of the sizes matters: the product is lost before the zero is reached. -/
example : product? [0x8000000000000000, 4, 0] = none := by decide +kernel

example : product? [0, 0x8000000000000000, 4] = some 0 := by decide +kernel

/-- The product has wrapped around to that of another shape. -/
example : count [0x100000000, 0x100000000] = count [0] := by decide +kernel

end Shape

end AxisNotation
