import AxisNotation.Proofs.Outcome
import AxisNotation.Tensor.Index

/-!
# Row-major order

The offset of an index in a shape is its number in mixed radix, the first coordinate the most
significant. Offsets of joined shapes combine (`Index.offset_append`), every number below the
element count is the offset of exactly one index (`Index.offset_lt`, `Index.offset_inj`,
`Shape.exists_offset`), and a list of indices in row-major order has each index at its offset
(`Shape.getElem?_indices`).
-/

namespace AxisNotation

namespace Shape

lemma elements_eq_prod (shape : Shape) : shape.elements = shape.prod := by
  induction shape with
  | nil => rfl
  | cons d ds ih => rw [elements, List.prod_cons, ih]

lemma elements_append (s t : Shape) : elements (s ++ t) = s.elements * t.elements := by
  simp only [elements_eq_prod, List.prod_append]

lemma length_strides (shape : Shape) : shape.strides.length = shape.length := by
  induction shape with
  | nil => rfl
  | cons d ds ih => rw [strides, List.length_cons, List.length_cons, ih]

lemma elements_eq_zero {shape : Shape} : shape.elements = 0 ↔ 0 ∈ shape := by
  rw [elements_eq_prod, List.prod_eq_zero_iff]

end Shape

namespace Index

lemma isIn_iff {i : Index} {shape : Shape} :
    i.isIn shape = true ↔ List.Forall₂ (· < ·) i shape := by
  induction shape generalizing i with
  | nil => cases i <;> simp [isIn]
  | cons d ds ih => cases i <;> simp [isIn, ih]

lemma length_of_isIn {i : Index} {shape : Shape} (h : i.isIn shape = true) :
    i.length = shape.length :=
  (isIn_iff.mp h).length_eq

lemma isIn_append {i j : Index} {s t : Shape} (hi : i.isIn s = true) (hj : j.isIn t = true) :
    isIn (i ++ j) (s ++ t) = true :=
  isIn_iff.mpr (List.rel_append (isIn_iff.mp hi) (isIn_iff.mp hj))

lemma isIn_map {β : Type} {labels : List β} {σ d : β → Nat} :
    isIn (labels.map σ) (labels.map d) = true ↔ ∀ a ∈ labels, σ a < d a := by
  rw [isIn_iff, List.forall₂_map_left_iff, List.forall₂_map_right_iff, List.forall₂_same]

/-- The offset of a joined index has the first part as its more significant digits. -/
lemma offset_append {i j : Index} {s t : Shape} (h : i.length = s.length) :
    offset (i ++ j) (Shape.strides (s ++ t))
      = i.offset s.strides * t.elements + j.offset t.strides := by
  induction s generalizing i with
  | nil =>
    obtain rfl := List.length_eq_zero_iff.mp h
    simp [offset]
  | cons d ds ih =>
    cases i with
    | nil => simp at h
    | cons k ks =>
      have step := ih (i := ks) (Nat.succ.inj h)
      simp only [List.cons_append, Shape.strides, offset, Shape.elements_append, step]
      ring

/-- A number of two digits is below the product of their bounds. -/
lemma digits_lt {a d r n : Nat} (ha : a < d) (hr : r < n) : a * n + r < d * n := by
  calc a * n + r < a * n + n := Nat.add_lt_add_left hr _
    _ = (a + 1) * n := (Nat.succ_mul a n).symm
    _ ≤ d * n := Nat.mul_le_mul_right n ha

lemma offset_lt {i : Index} {shape : Shape} (h : i.isIn shape = true) :
    i.offset shape.strides < shape.elements := by
  induction shape generalizing i with
  | nil => cases i <;> simp [isIn, offset, Shape.elements] at h ⊢
  | cons d ds ih =>
    cases i with
    | nil => simp [isIn] at h
    | cons k ks =>
      simp only [isIn, Bool.and_eq_true, decide_eq_true_eq] at h
      exact digits_lt h.1 (ih h.2)

/-- Two numbers of two digits are the same when the digits are. -/
lemma digits_inj {a b r r' n : Nat} (hr : r < n) (hr' : r' < n) :
    a * n + r = b * n + r' ↔ a = b ∧ r = r' := by
  -- the last digit is below the base, so dividing by the base gives the first
  have quotient {a r : Nat} (hr : r < n) : (a * n + r) / n = a := by
    rw [Nat.mul_comm, Nat.mul_add_div (Nat.zero_lt_of_lt hr), Nat.div_eq_of_lt hr, Nat.add_zero]
  constructor
  · intro e
    have leading : a = b := by rw [← quotient (a := a) hr, e, quotient hr']
    subst leading
    exact ⟨rfl, Nat.add_left_cancel e⟩
  · rintro ⟨rfl, rfl⟩
    rfl

lemma offset_inj {i j : Index} {shape : Shape} (hi : i.isIn shape = true) (hj : j.isIn shape = true)
    (e : i.offset shape.strides = j.offset shape.strides) : i = j := by
  induction shape generalizing i j with
  | nil =>
    cases i <;> cases j <;> first | rfl | simp [isIn] at hi hj
  | cons d ds ih =>
    cases i with
    | nil => simp [isIn] at hi
    | cons k ks =>
      cases j with
      | nil => simp [isIn] at hj
      | cons l ls =>
        simp only [isIn, Bool.and_eq_true, decide_eq_true_eq] at hi hj
        simp only [Shape.strides, offset] at e
        obtain ⟨rfl, rest⟩ := (digits_inj (offset_lt hi.2) (offset_lt hj.2)).mp e
        rw [ih hi.2 hj.2 rest]

lemma offset_map_map {β : Type} (labels : List β) (σ w : β → Nat) :
    offset (labels.map σ) (labels.map w) = (labels.map fun a => σ a * w a).sum := by
  induction labels with
  | nil => rfl
  | cons a as ih => simp only [List.map_cons, offset, List.sum_cons, ih]

end Index

namespace Shape

lemma mem_indices {i : Index} {shape : Shape} : i ∈ shape.indices ↔ i.isIn shape = true := by
  rw [indices_eq_box, mem_box]

lemma length_indices (shape : Shape) : shape.indices.length = shape.elements := by
  rw [indices_eq_box, length_box]

/-- In row-major order every index stands at its offset. -/
lemma getElem?_indices {i : Index} {shape : Shape} (h : i.isIn shape = true) :
    shape.indices[i.offset shape.strides]? = some i := by
  have bound : i.offset shape.strides < shape.indices.length := by
    rw [length_indices]
    exact Index.offset_lt h
  have place : (shape.indices[i.offset shape.strides]).offset shape.strides
      = i.offset shape.strides := by
    have e := List.getElem_of_eq (map_offset_indices shape)
      (i := i.offset shape.strides) (by rwa [List.length_map])
    rwa [List.getElem_map, List.getElem_range] at e
  -- the index that stands there has this offset, and no other index has it
  have member := mem_indices.mp (List.getElem_mem bound)
  rw [List.getElem?_eq_getElem bound, Index.offset_inj member h place]

/-- Every number below the element count is the offset of an index. -/
lemma exists_offset {n : Nat} {shape : Shape} (h : n < shape.elements) :
    ∃ i : Index, i.isIn shape = true ∧ i.offset shape.strides = n := by
  have member : n ∈ shape.indices.map (Index.offset · shape.strides) := by
    rw [map_offset_indices]
    exact List.mem_range.mpr h
  obtain ⟨i, hi, e⟩ := List.mem_map.mp member
  exact ⟨i, mem_indices.mp hi, e⟩

end Shape

end AxisNotation
