import AxisNotation.Proofs.Offset
import AxisNotation.Tensor.Loop

/-!
# Sizes in words

A word keeps what is left of a number modulo the number of words, and sums and products do not mind
when this is done. So the count of a shape is the wrapped number of its elements (`Shape.count_eq`),
and wrapped strides give an index its wrapped offset (`Loop.place_wrap`). Where the number of
elements can be stated, both are what they would be without a limit (`Shape.Stated.count`,
`Shape.Stated.place`).
-/

namespace AxisNotation

namespace Shape

variable {n d : Nat}

lemma wrap_of_le (h : n ≤ sizeLimit) : wrap n = n :=
  Nat.mod_eq_of_lt (Nat.lt_succ_of_le h)

lemma wrap_mul (n d : Nat) : wrap (wrap n * d) = wrap (n * d) :=
  Nat.mod_mul_mod n d _

lemma mul_wrap (n d : Nat) : wrap (n * wrap d) = wrap (n * d) :=
  Nat.mul_mod_mod n d _

lemma wrap_add_wrap (n d : Nat) : wrap (wrap n + wrap d) = wrap (n + d) :=
  (Nat.add_mod n d _).symm

/-- What a product comes to that is continued from a partial product. -/
lemma foldl_wrap (shape : Shape) (n : Nat) :
    shape.foldl (fun n d => wrap (n * d)) (wrap n) = wrap (n * shape.elements) := by
  induction shape generalizing n with
  | nil => rw [List.foldl_nil, elements, Nat.mul_one]
  | cons d ds ih => rw [List.foldl_cons, wrap_mul, ih, elements, Nat.mul_assoc]

/-- The count of a shape is its number of elements, wrapped once. -/
theorem count_eq (shape : Shape) : shape.count = wrap shape.elements := by
  have started := foldl_wrap shape 1
  rwa [Nat.one_mul] at started

/-- The number of elements of a shape can be stated. -/
def Stated (shape : Shape) : Prop :=
  shape.elements ≤ sizeLimit

instance : DecidablePred Stated :=
  fun shape => inferInstanceAs (Decidable (shape.elements ≤ sizeLimit))

lemma Stated.count {shape : Shape} (h : shape.Stated) : shape.count = shape.elements := by
  rw [count_eq, wrap_of_le h]

end Shape

namespace Loop

open Shape (wrap sizeLimit)

variable {i : Index} {ws : List Nat}

/-- Strides may be wrapped before a place is computed, or the offset afterwards. -/
theorem place_wrap (i : Index) (ws : List Nat) : place i (ws.map wrap) = wrap (i.offset ws) := by
  -- the sum is continued from a partial sum
  suffices continued : ∀ n, (i.zip (ws.map wrap)).foldl
      (fun sum p => wrap (sum + wrap (p.1 * p.2))) (wrap n) = wrap (n + i.offset ws) by
    have started := continued 0
    rwa [Nat.zero_add] at started
  induction i generalizing ws with
  | nil => exact fun n => rfl
  | cons k ks ih =>
    cases ws with
    | nil => exact fun n => rfl
    | cons w ws =>
      intro n
      rw [List.map_cons, List.zip_cons_cons, List.foldl_cons, Shape.mul_wrap, Shape.wrap_add_wrap,
        ih, Index.offset, Nat.add_assoc]

/-- An offset that can be stated is the place. -/
lemma place_of_le (h : i.offset ws ≤ sizeLimit) : place i (ws.map wrap) = i.offset ws := by
  rw [place_wrap, Shape.wrap_of_le h]

end Loop

/-- In a shape whose number of elements can be stated, the place of an index is its offset. -/
lemma Shape.Stated.place {shape : Shape} (stated : shape.Stated) {i : Index}
    (hi : i.isIn shape = true) :
    Loop.place i (shape.strides.map wrap) = i.offset shape.strides :=
  Loop.place_of_le ((Index.offset_lt hi).le.trans stated)

end AxisNotation
