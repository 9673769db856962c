import AxisNotation.Proofs.Tensor

/-!
# Reducing a tensor

A reduction runs over two sets of indices, which together make up the shape: those that are zero
along the reduced axes, and those that are zero along the others. Each sum of one of either kind is
an index of the tensor (`Index.isIn_add`). `Tensor.exists_reduce` states the result for any axes and
`Tensor.exists_reduce_last` for the last axes, where the two sets are the indices of the kept and of
the reduced dimensions.
-/

namespace AxisNotation

namespace Index

/-- The sum of two indices, coordinate by coordinate. -/
def add (i j : Index) : Index :=
  List.zipWith (· + ·) i j

/-- The offset of a sum is the sum of the offsets. -/
lemma offset_add {i j : Index} (h : i.length = j.length) (strides : List Nat) :
    (add i j).offset strides = i.offset strides + j.offset strides := by
  induction i generalizing j strides with
  | nil => cases j <;> simp_all [add, offset]
  | cons k ks ih =>
    cases j with
    | nil => simp at h
    | cons l ls =>
      cases strides with
      | nil => rfl
      | cons s ss =>
        have step := ih (Nat.succ.inj h) ss
        simp only [add, List.zipWith_cons_cons, offset] at step ⊢
        rw [step]
        ring

/-- An index that is zero along some axes and one that is zero along the others sum to an index. -/
lemma isIn_add {P : Nat → Prop} [DecidablePred P] {shape : Shape} {i j : Index}
    (hi : i.isIn (shape.mapIdx fun k d => if P k then 1 else d) = true)
    (hj : j.isIn (shape.mapIdx fun k d => if P k then d else 1) = true) :
    (add i j).isIn shape = true := by
  induction shape generalizing P i j with
  | nil => cases i <;> cases j <;> simp_all [add, isIn]
  | cons d ds ih =>
    rw [List.mapIdx_cons] at hi hj
    cases i with
    | nil => simp [isIn] at hi
    | cons k ks =>
      cases j with
      | nil => simp [isIn] at hj
      | cons l ls =>
        simp only [isIn, Bool.and_eq_true, decide_eq_true_eq] at hi hj
        have rest := ih (P := fun k => P (k + 1)) hi.2 hj.2
        have first : k + l < d := by
          have := hi.1
          have := hj.1
          split_ifs at * <;> omega
        simp only [add, List.zipWith_cons_cons, isIn, Bool.and_eq_true, decide_eq_true_eq]
        exact ⟨first, rest⟩

end Index

namespace Shape

/-- Without the axes that were set to one, a shape has as many elements. -/
lemma elements_dropAxes (shape : Shape) (axes : List Nat) :
    (shape.dropAxes axes).elements = (shape.flatten axes).elements := by
  -- for the induction the positions of the axes start anywhere
  suffices h : ∀ (P : Nat → Prop) [DecidablePred P] (n : Nat),
      elements (((shape.zipIdx n).filter fun d => ¬ P d.2).map Prod.fst)
        = elements (shape.mapIdx fun k d => if P (k + n) then 1 else d) by
    exact h (· ∈ axes) 0
  induction shape with
  | nil => intro P _ n; rfl
  | cons d ds ih =>
    intro P _ n
    have rest := ih P (n + 1)
    rw [List.zipIdx_cons, List.mapIdx_cons, elements, Nat.zero_add]
    simp only [Nat.add_assoc, Nat.add_comm 1 n] at rest ⊢
    by_cases h : P n
    · rw [List.filter_cons_of_neg (by simpa using h), if_pos h, Nat.one_mul, rest]
    · rw [List.filter_cons_of_pos (by simpa using h), if_neg h, List.map_cons, elements, rest]

end Shape

/-- Natural numbers as elements, on which reductions can be computed. -/
instance : Scalar Nat where
  zero := 0
  one := 1
  add := Nat.add
  mul := Nat.mul
  div := Nat.div
  less a b := decide (a < b)
  ofCount := id

namespace Reduction

variable {α : Type} [Scalar α]

lemma exists_combine {reduction : Reduction} {line : List α}
    (h : reduction.needsElement = true → line ≠ []) : ∃ x, reduction.combine? line = some x := by
  cases reduction with
  | sum => exact ⟨_, rfl⟩
  | mean => exact ⟨_, rfl⟩
  | prod => exact ⟨_, rfl⟩
  | max =>
    cases line with
    | nil => exact absurd rfl (h rfl)
    | cons x xs => exact ⟨_, rfl⟩
  | min =>
    cases line with
    | nil => exact absurd rfl (h rfl)
    | cons x xs => exact ⟨_, rfl⟩

end Reduction

namespace Tensor

variable {α : Type} {t u : Tensor α} {axes : List Nat}

/-- The elements that are combined for an index of the kept axes, in row-major order. -/
def line? (t : Tensor α) (axes : List Nat) (i : Index) : Option (List α) :=
  (t.shape.isolate axes).indices.mapM fun j => t.get? (i.add j)

/-- The computation that reads these elements by their offsets. -/
def readLine (t : Tensor α) (axes : List Nat) (i : Index) : Except TensorError (List α) :=
  (t.shape.isolate axes).indices.mapM fun j =>
    t.read (i.offset t.shape.strides + j.offset t.shape.strides)

lemma exists_line {i : Index} (hi : i.isIn (t.shape.flatten axes) = true) :
    ∃ line, t.readLine axes i = .ok line ∧ t.line? axes i = some line
      ∧ line.length = (t.shape.isolate axes).elements := by
  have inside (j : Index) (hj : j ∈ (t.shape.isolate axes).indices) :
      (i.add j).isIn t.shape = true
        ∧ (i.add j).offset t.shape.strides
            = i.offset t.shape.strides + j.offset t.shape.strides := by
    have hj := Shape.mem_indices.mp hj
    refine ⟨Index.isIn_add hi hj, Index.offset_add ?_ _⟩
    rw [Index.length_of_isIn hi, Index.length_of_isIn hj, Shape.flatten, Shape.isolate,
      List.length_mapIdx, List.length_mapIdx]
  have found (j : Index) (hj : j ∈ (t.shape.isolate axes).indices) :
      ∃ x, t.read (i.offset t.shape.strides + j.offset t.shape.strides) = .ok x := by
    obtain ⟨isIn, offset⟩ := inside j hj
    exact exists_read (offset ▸ Index.offset_lt isIn)
  obtain ⟨line, computed⟩ := exists_mapM_eq_ok found
  have pointwise := List.forall₂_iff_zip.mp (mapM_eq_ok.mp computed)
  refine ⟨line, computed, mapM_eq_some.mpr (List.forall₂_iff_zip.mpr ⟨pointwise.1, ?_⟩), ?_⟩
  · intro j x h
    obtain ⟨isIn, offset⟩ := inside j (List.of_mem_zip h).1
    rw [get?_eq isIn, offset]
    exact read_eq_ok.mp (pointwise.2 h)
  · rw [← pointwise.1, Shape.length_indices]

variable [Scalar α] {reduction : Reduction}

/-- Whether a reduction would have to find the greatest or the least of no elements. -/
def LacksElement (shape : Shape) (axes : List Nat) (reduction : Reduction) : Prop :=
  reduction.needsElement = true ∧ (shape.isolate axes).elements = 0
    ∧ (shape.flatten axes).elements ≠ 0

/-- The computation of the element at an index of the kept axes. -/
def combineAt (t : Tensor α) (axes : List Nat) (reduction : Reduction) (i : Index) :
    Except TensorError α := do
  let line ← t.readLine axes i
  match reduction.combine? line with
  | some x => .ok x
  | none => .error (.emptyReduction reduction)

lemma reduce_of_lacksElement (keep : Bool) (nodup : axes.Nodup) (range : ∀ a ∈ axes, a < t.rank)
    (h : LacksElement t.shape axes reduction) :
    t.reduce axes reduction keep = .error (.emptyReduction reduction) := by
  rw [reduce, if_pos ⟨nodup, range⟩]
  exact if_pos h

lemma reduce_eq (keep : Bool) (nodup : axes.Nodup) (range : ∀ a ∈ axes, a < t.rank)
    (h : ¬ LacksElement t.shape axes reduction) :
    t.reduce axes reduction keep
      = (t.shape.flatten axes).indices.mapM (t.combineAt axes reduction) >>= fun elements =>
          ofArray (if keep then t.shape.flatten axes else t.shape.dropAxes axes)
            elements.toArray := by
  rw [reduce, if_pos ⟨nodup, range⟩]
  exact if_neg h

/-- At every index of the kept axes there is an element, unless the reduction lacks one. -/
lemma exists_combineAt (h : ¬ LacksElement t.shape axes reduction) {i : Index}
    (hi : i.isIn (t.shape.flatten axes) = true) :
    ∃ x line, t.combineAt axes reduction i = .ok x ∧ t.line? axes i = some line
      ∧ reduction.combine? line = some x := by
  obtain ⟨line, computed, got, len⟩ := exists_line hi
  have nonempty (needs : reduction.needsElement = true) : line ≠ [] := by
    rintro rfl
    exact h ⟨needs, len.symm, Nat.ne_of_gt (Nat.zero_lt_of_lt (Index.offset_lt hi))⟩
  obtain ⟨x, hx⟩ := Reduction.exists_combine nonempty
  exact ⟨x, line, bind_eq_ok.mpr ⟨line, computed, by rw [hx]⟩, got, hx⟩

/-- Unless it lacks an element, a reduction over distinct axes of the tensor has at each index of
the kept axes the combination of the elements along the others. -/
theorem exists_reduce (keep : Bool) (nodup : axes.Nodup) (range : ∀ a ∈ axes, a < t.rank)
    (h : ¬ LacksElement t.shape axes reduction) :
    ∃ u, t.reduce axes reduction keep = .ok u
      ∧ u.shape = (if keep then t.shape.flatten axes else t.shape.dropAxes axes)
      ∧ ∀ i : Index, i.isIn (t.shape.flatten axes) = true → ∃ line x, t.line? axes i = some line
          ∧ reduction.combine? line = some x
          ∧ u.data[i.offset (t.shape.flatten axes).strides]? = some x := by
  have step (i : Index) (hi : i ∈ (t.shape.flatten axes).indices) :
      ∃ x, t.combineAt axes reduction i = .ok x := by
    obtain ⟨x, _, computed, _⟩ := exists_combineAt h (Shape.mem_indices.mp hi)
    exact ⟨x, computed⟩
  obtain ⟨elements, computed⟩ := exists_mapM_eq_ok step
  -- the result with all axes kept, whose elements those without the reduced axes are as well
  obtain ⟨v, _, shape, data⟩ := exists_ofArray_of_mapM computed
  have size : elements.toArray.size
      = Shape.elements (if keep then t.shape.flatten axes else t.shape.dropAxes axes) := by
    rw [← data, v.size_data, shape]
    cases keep
    · exact (Shape.elements_dropAxes t.shape axes).symm
    · rfl
  refine ⟨⟨_, elements.toArray, size⟩, ?_, rfl, ?_⟩
  · rw [reduce_eq keep nodup range h]
    exact bind_eq_ok.mpr ⟨elements, computed, ofArray_eq_ok.mpr ⟨rfl, rfl⟩⟩
  · intro i hi
    obtain ⟨x, line, made, got, hx⟩ := exists_combineAt h hi
    rw [← shape] at computed hi
    obtain ⟨y, made', got'⟩ := get?_of_mapM computed data hi
    rw [get?_eq hi, data, shape] at got'
    obtain rfl : x = y := Except.ok.inj (made.symm.trans made')
    exact ⟨line, x, got, hx, got'⟩

end Tensor

/-! ## Reducing the last axes -/

namespace Shape

variable (ks rs : Shape)

lemma flatten_last :
    flatten (ks ++ rs) (List.range' ks.length rs.length) = ks ++ rs.map fun _ => 1 := by
  rw [flatten, List.mapIdx_append]
  congr 1
  · apply List.ext_getElem (List.length_mapIdx)
    intro k _ hk
    rw [List.getElem_mapIdx, if_neg (by simp only [List.mem_range'_1]; omega)]
  · apply List.ext_getElem (by simp)
    intro k hk _
    rw [List.length_mapIdx] at hk
    rw [List.getElem_mapIdx, List.getElem_map, if_pos (by simp only [List.mem_range'_1]; omega)]

lemma isolate_last :
    isolate (ks ++ rs) (List.range' ks.length rs.length) = (ks.map fun _ => 1) ++ rs := by
  rw [isolate, List.mapIdx_append]
  congr 1
  · apply List.ext_getElem (by simp)
    intro k hk _
    rw [List.length_mapIdx] at hk
    rw [List.getElem_mapIdx, List.getElem_map, if_neg (by simp only [List.mem_range'_1]; omega)]
  · apply List.ext_getElem (List.length_mapIdx)
    intro k _ hk
    rw [List.getElem_mapIdx, if_pos (by simp only [List.mem_range'_1]; omega)]

lemma dropAxes_last : dropAxes (ks ++ rs) (List.range' ks.length rs.length) = ks := by
  rw [dropAxes, List.zipIdx_append, List.filter_append]
  have front : (ks.zipIdx.filter fun d => d.2 ∉ List.range' ks.length rs.length) = ks.zipIdx := by
    rw [List.filter_eq_self]
    rintro ⟨d, k⟩ h
    have := (List.mem_zipIdx h).2.1
    simp only [List.mem_range'_1, decide_eq_true_eq]
    omega
  have back : ((rs.zipIdx (0 + ks.length)).filter
      fun d => d.2 ∉ List.range' ks.length rs.length) = [] := by
    rw [List.filter_eq_nil_iff]
    rintro ⟨d, k⟩ h
    have := List.mem_zipIdx h
    simp only [List.mem_range'_1, decide_eq_true_eq]
    omega
  rw [front, back, List.append_nil, List.zipIdx_map_fst]

lemma elements_units : elements (ks.map fun _ => 1) = 1 := by
  rw [elements_eq_prod, List.map_const', List.prod_replicate, Nat.one_pow]

/-- Axes of size one in front put zeros in front of every index. -/
lemma box_units_append :
    box ((ks.map fun _ => 1) ++ rs) = (box rs).map ((ks.map fun _ => 0) ++ ·) := by
  induction ks with
  | nil => exact (List.map_id _).symm
  | cons k ks ih =>
    rw [List.map_cons, List.cons_append, box, ih, List.range_one, List.flatMap_singleton,
      List.map_map]
    rfl

end Shape

namespace Index

lemma isIn_zeros (rs : Shape) : isIn (rs.map fun _ => 0) (rs.map fun _ => 1) = true :=
  isIn_map.mpr fun _ _ => Nat.one_pos

lemma offset_zeros (rs : Shape) (strides : List Nat) : offset (rs.map fun _ => 0) strides = 0 := by
  induction rs generalizing strides with
  | nil => rfl
  | cons r rs ih =>
    cases strides with
    | nil => rfl
    | cons s ss => rw [List.map_cons, offset, ih, Nat.zero_mul]

lemma add_zeros {k r ks rs : List Nat} (hk : k.length = ks.length) (hr : r.length = rs.length) :
    add (k ++ rs.map fun _ => 0) ((ks.map fun _ => 0) ++ r) = k ++ r := by
  rw [add, List.zipWith_append (by rw [List.length_map, hk])]
  congr 1
  · apply List.ext_getElem (by simp [hk])
    intro n _ _
    simp
  · apply List.ext_getElem (by simp [hr])
    intro n _ _
    simp

end Index

namespace Tensor

variable {α : Type} [Scalar α] {t u : Tensor α} {reduction : Reduction} {ks rs : Shape}

lemma lacksElement_last :
    LacksElement (ks ++ rs) (List.range' ks.length rs.length) reduction
      ↔ reduction.needsElement = true ∧ rs.elements = 0 ∧ ks.elements ≠ 0 := by
  rw [LacksElement, Shape.isolate_last, Shape.flatten_last, Shape.elements_append,
    Shape.elements_append, Shape.elements_units, Shape.elements_units, Nat.one_mul, Nat.mul_one]

/-- When the last axes are reduced, the element at an index of the others is the combination of the
elements at its continuations, in row-major order. -/
theorem exists_reduce_last (keep : Bool) (hs : t.shape = ks ++ rs)
    (h : ¬ (reduction.needsElement = true ∧ rs.elements = 0 ∧ ks.elements ≠ 0)) :
    ∃ u, t.reduce (List.range' ks.length rs.length) reduction keep = .ok u
      ∧ u.shape = ks ++ (if keep then rs.map fun _ => 1 else [])
      ∧ ∀ k : Index, k.isIn ks = true → ∃ line x,
          rs.box.mapM (fun r => t.get? (k ++ r)) = some line ∧ reduction.combine? line = some x
          ∧ u.get? (k ++ if keep then rs.map fun _ => 0 else []) = some x := by
  have range : ∀ a ∈ List.range' ks.length rs.length, a < t.rank := by
    intro a ha
    rw [List.mem_range'_1] at ha
    rw [rank, hs, List.length_append]
    exact ha.2
  rw [← lacksElement_last, ← hs] at h
  obtain ⟨u, made, shape, element⟩ := exists_reduce keep List.nodup_range' range h
  rw [hs, Shape.flatten_last, Shape.dropAxes_last] at shape
  have shape : u.shape = ks ++ (if keep then rs.map fun _ => 1 else []) := by
    rw [shape]
    cases keep
    · exact (List.append_nil ks).symm
    · rfl
  refine ⟨u, made, shape, ?_⟩
  intro k hk
  have len := Index.length_of_isIn hk
  -- the index with zeros along the reduced axes
  have inside : Index.isIn (k ++ rs.map fun _ => 0) (t.shape.flatten
      (List.range' ks.length rs.length)) = true := by
    rw [hs, Shape.flatten_last]
    exact Index.isIn_append hk (Index.isIn_zeros rs)
  obtain ⟨line, x, got, combined, value⟩ := element _ inside
  refine ⟨line, x, ?_, combined, ?_⟩
  · rw [← got, line?, hs, Shape.isolate_last, Shape.indices_eq_box, Shape.box_units_append,
      List.mapM_map]
    apply mapM_congr
    intro r hr
    rw [Function.comp_apply, Index.add_zeros len (Index.length_of_isIn (Shape.mem_box.mp hr))]
  · rw [← value, hs, Shape.flatten_last]
    cases keep
    · have inside : Index.isIn (k ++ []) u.shape = true := by
        rw [shape]
        exact Index.isIn_append hk rfl
      rw [if_neg Bool.false_ne_true, get?_eq inside, shape, if_neg Bool.false_ne_true,
        List.append_nil, List.append_nil, Index.offset_append len, Shape.elements_units,
        Index.offset_zeros, Nat.mul_one, Nat.add_zero]
    · have inside : Index.isIn (k ++ rs.map fun _ => 0) u.shape = true := by
        rw [shape]
        exact Index.isIn_append hk (Index.isIn_zeros rs)
      rw [if_pos rfl, get?_eq inside, shape, if_pos rfl]

end Tensor

end AxisNotation
