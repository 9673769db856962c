import AxisNotation.Proofs.Offset
import AxisNotation.Tensor.Operations

/-!
# Where the elements of a tensor go

A tensor is determined by its elements (`Tensor.ext_get`). Reshaping keeps every element at its
offset, and gathering takes the element at an index from an offset in the source. From this follows
what permuting and expanding do. The axes of a tensor are given by labels here, so that an index is
an assignment of coordinates to labels: permuting reorders the labels and leaves the assignment
alone (`Tensor.exists_permute`). When the labels are the positions, this arranges shape and indices
in the same way (`Tensor.exists_arranged`).
-/

namespace AxisNotation

/-- An assignment of coordinates to labels is in range when it is below the size of each label. -/
def InRange {β : Type} (size σ : β → Nat) (labels : List β) : Prop :=
  ∀ a ∈ labels, σ a < size a

instance {β : Type} (size σ : β → Nat) : DecidablePred (InRange size σ) :=
  fun labels => inferInstanceAs (Decidable (∀ a ∈ labels, σ a < size a))

lemma InRange.perm {β : Type} {size σ : β → Nat} {labels targets : List β}
    (h : InRange size σ labels) (perm : targets.Perm labels) : InRange size σ targets :=
  fun a ha => h a (perm.mem_iff.mp ha)

section Labels

variable {β : Type} [DecidableEq β] {axes : List β}

/-- Any list of numbers assigns one to each of as many distinct labels. -/
lemma exists_assignment (nodup : axes.Nodup) {xs : List Nat} (h : xs.length = axes.length) :
    ∃ σ : β → Nat, axes.map σ = xs := by
  refine ⟨fun a => xs.getD (axes.idxOf a) 0, ?_⟩
  apply List.ext_getElem
  · rw [List.length_map, h]
  · intro k hk hx
    rw [List.getElem_map, nodup.idxOf_getElem, List.getD_eq_getElem xs 0 hx]

lemma map_idxOf_self (nodup : axes.Nodup) : axes.map (axes.idxOf ·) = List.range axes.length := by
  apply List.ext_getElem
  · rw [List.length_map, List.length_range]
  · intro k hk _
    rw [List.getElem_map, nodup.idxOf_getElem, List.getElem_range]

lemma idxOf?_eq_some {a : β} (h : a ∈ axes) : axes.idxOf? a = some (axes.idxOf a) := by
  obtain ⟨k, hk⟩ := Option.isSome_iff_exists.mp (List.isSome_idxOf?.mpr h)
  rw [List.idxOf_eq_getD_idxOf?, hk, Option.getD_some]

lemma Shape.pick?_map {targets : List β} (h : ∀ a ∈ targets, a ∈ axes) (d : β → Nat) :
    Shape.pick? (axes.map d) (targets.map (axes.idxOf ·)) = some (targets.map d) := by
  rw [Shape.pick?, List.mapM_map]
  apply mapM_eq_some_map
  intro a ha
  rw [Function.comp_apply, List.getElem?_map, List.getElem?_idxOf (h a ha), Option.map_some]

lemma isPerm_positions {targets : List β} (nodup : axes.Nodup) (perm : targets.Perm axes) :
    (targets.map (axes.idxOf ·)).isPerm (List.range axes.length) = true := by
  rw [List.isPerm_iff, ← map_idxOf_self nodup]
  exact perm.map _

end Labels

/-- The entries of a list at some of its positions. -/
def arrange (xs positions : List Nat) : List Nat :=
  positions.map fun k => xs.getD k 0

lemma length_arrange (xs positions : List Nat) :
    (arrange xs positions).length = positions.length :=
  List.length_map _

lemma arrange_range (xs : List Nat) : arrange xs (List.range xs.length) = xs := by
  apply List.ext_getElem
  · rw [length_arrange, List.length_range]
  · intro k hk hk'
    simp only [arrange, List.getElem_map, List.getElem_range]
    exact List.getD_eq_getElem _ _ hk'

/-- Arranged in the same way, an index is in a shape exactly when it was before. -/
lemma isIn_arrange {i : Index} {shape : Shape} {positions : List Nat}
    (h : positions.Perm (List.range shape.length)) (len : i.length = shape.length) :
    Index.isIn (arrange i positions) (arrange shape positions) = true ↔ i.isIn shape = true := by
  conv_rhs => rw [← arrange_range i, ← arrange_range shape, len]
  unfold arrange
  simp only [Index.isIn_map, h.mem_iff]

lemma map_idxOf_range {n : Nat} {positions : List Nat} (h : ∀ k ∈ positions, k < n) :
    positions.map ((List.range n).idxOf ·) = positions := by
  refine (List.map_congr_left fun k hk => ?_).trans (List.map_id _)
  have place := List.nodup_range.idxOf_getElem k (by rw [List.length_range]; exact h k hk)
  rwa [List.getElem_range] at place

namespace Tensor

variable {α : Type} {t u : Tensor α}

lemma get?_eq {i : Index} (h : i.isIn t.shape = true) :
    t.get? i = t.data[i.offset t.shape.strides]? := by
  rw [get?, if_pos h]

/-- Two tensors of one shape with the same elements are the same. -/
theorem ext_get (hs : t.shape = u.shape)
    (h : ∀ i : Index, i.isIn t.shape = true → t.get? i = u.get? i) :
    t = u := by
  obtain ⟨s, xs, hx⟩ := t
  obtain ⟨s', ys, hy⟩ := u
  obtain rfl : s = s' := hs
  suffices e : xs = ys by subst e; rfl
  apply Array.ext
  · rw [hx, hy]
  · intro k hk hk'
    obtain ⟨i, hi, rfl⟩ := Shape.exists_offset (hx ▸ hk)
    have e := h i hi
    rw [get?_eq hi, get?_eq hi] at e
    rw [Array.getElem?_eq_getElem hk, Array.getElem?_eq_getElem hk'] at e
    exact Option.some.inj e

lemma ofArray_eq_ok {shape : Shape} {data : Array α} :
    ofArray shape data = .ok u ↔ u.shape = shape ∧ u.data = data := by
  unfold ofArray
  constructor
  · intro h
    split at h
    · cases h
      exact ⟨rfl, rfl⟩
    · cases h
  · rintro ⟨rfl, rfl⟩
    rw [dif_pos u.size_data]

/-! ## Reshaping -/

lemma reshape_eq_ok {shape : Shape} : t.reshape shape = .ok u ↔ u.shape = shape ∧ u.data = t.data :=
  ofArray_eq_ok

/-- A tensor takes any shape with as many elements, and keeps each element at its offset. -/
lemma exists_reshape {shape : Shape} (h : shape.elements = t.shape.elements) :
    ∃ u, t.reshape shape = .ok u ∧ u.shape = shape
      ∧ ∀ i j : Index, i.isIn t.shape = true → j.isIn shape = true →
        j.offset shape.strides = i.offset t.shape.strides → u.get? j = t.get? i := by
  refine ⟨⟨shape, t.data, t.size_data.trans h.symm⟩, reshape_eq_ok.mpr ⟨rfl, rfl⟩, rfl, ?_⟩
  intro i j hi hj e
  rw [get?_eq hi, get?_eq hj, e]

lemma reshape_self : t.reshape t.shape = .ok t :=
  reshape_eq_ok.mpr ⟨rfl, rfl⟩

lemma reshape_of_reshape {shape : Shape} (h : t.reshape shape = .ok u) (target : Shape) :
    u.reshape target = t.reshape target := by
  rw [reshape, reshape, (reshape_eq_ok.mp h).2]

/-! ## Gathering -/

lemma read_eq_ok {offset : Nat} {x : α} : t.read offset = .ok x ↔ t.data[offset]? = some x := by
  unfold read
  split
  · next y e => rw [e]; exact ⟨fun h => by cases h; rfl, fun h => by cases h; rfl⟩
  · next e => rw [e]; exact ⟨nofun, nofun⟩

lemma exists_read {offset : Nat} (h : offset < t.shape.elements) : ∃ x, t.read offset = .ok x := by
  rw [← t.size_data] at h
  exact ⟨t.data[offset], read_eq_ok.mpr (Array.getElem?_eq_getElem h)⟩

/-- When elements are computed for the indices of a shape in row-major order, the tensor made of
them has at each index the element that was computed for it. -/
lemma get?_of_mapM {ε : Type} {f : Index → Except ε α} {elements : List α}
    (h : u.shape.indices.mapM f = .ok elements) (data : u.data = elements.toArray) {i : Index}
    (hi : i.isIn u.shape = true) : ∃ x, f i = .ok x ∧ u.get? i = some x := by
  obtain ⟨len, pointwise⟩ := List.forall₂_iff_get.mp (mapM_eq_ok.mp h)
  have place := Shape.getElem?_indices hi
  obtain ⟨bound, e⟩ := List.getElem?_eq_some_iff.mp place
  have bound' := len ▸ bound
  have computed := pointwise _ bound bound'
  rw [List.get_eq_getElem, List.get_eq_getElem, e] at computed
  refine ⟨_, computed, ?_⟩
  rw [get?_eq hi, data, List.getElem?_toArray, List.getElem?_eq_getElem bound']

lemma exists_ofArray_of_mapM {ε : Type} {f : Index → Except ε α} {shape : Shape} {elements : List α}
    (h : shape.indices.mapM f = .ok elements) :
    ∃ u : Tensor α, ofArray shape elements.toArray = .ok u ∧ u.shape = shape
      ∧ u.data = elements.toArray := by
  have len := (mapM_eq_ok.mp h).length_eq
  rw [Shape.length_indices] at len
  have size : elements.toArray.size = shape.elements := by rw [List.size_toArray, ← len]
  exact ⟨⟨shape, _, size⟩, ofArray_eq_ok.mpr ⟨rfl, rfl⟩, rfl, rfl⟩

/-- Gathering succeeds when every offset is in the source, and reads each element there. -/
lemma exists_gather {shape : Shape} {strides : List Nat}
    (h : ∀ i : Index, i.isIn shape = true → i.offset strides < t.shape.elements) :
    ∃ u, t.gather shape strides = .ok u ∧ u.shape = shape
      ∧ ∀ i : Index, i.isIn shape = true → u.get? i = t.data[i.offset strides]? := by
  obtain ⟨elements, computed⟩ := exists_mapM_eq_ok (f := fun i : Index => t.read (i.offset strides))
    fun i hi => exists_read (h i (Shape.mem_indices.mp hi))
  obtain ⟨u, made, rfl, data⟩ := exists_ofArray_of_mapM computed
  refine ⟨u, bind_eq_ok.mpr ⟨elements, computed, made⟩, rfl, ?_⟩
  intro i hi
  obtain ⟨x, read, got⟩ := get?_of_mapM computed data hi
  rw [got, read_eq_ok.mp read]

/-! ## Permuting -/

section Labels

variable {β : Type} [DecidableEq β] {axes targets : List β} {d : β → Nat}

/-- Permuting reorders the labels of the axes and keeps the element of every assignment. -/
theorem exists_permute (nodup : axes.Nodup) (perm : targets.Perm axes) (hs : t.shape = axes.map d) :
    ∃ u, t.permute (targets.map (axes.idxOf ·)) = .ok u ∧ u.shape = targets.map d
      ∧ ∀ σ : β → Nat, InRange d σ axes → u.get? (targets.map σ) = t.get? (axes.map σ) := by
  have rank : t.rank = axes.length := by rw [Tensor.rank, hs, List.length_map]
  have sub : ∀ a ∈ targets, a ∈ axes := fun a ha => perm.subset ha
  have len : t.shape.strides.length = axes.length := (Shape.length_strides _).trans rank
  obtain ⟨w, hw⟩ := exists_assignment nodup len
  -- an offset is a sum over the labels, whatever their order
  have offset (σ : β → Nat) :
      Index.offset (targets.map σ) (targets.map w) = Index.offset (axes.map σ) t.shape.strides := by
    rw [← hw, Index.offset_map_map, Index.offset_map_map]
    exact (perm.map _).sum_eq
  have inRange (σ : β → Nat) (h : InRange d σ axes) :
      Index.isIn (axes.map σ) t.shape = true := by
    rw [hs]
    exact Index.isIn_map.mpr h
  have bound (i : Index) (hi : i.isIn (targets.map d) = true) :
      i.offset (targets.map w) < t.shape.elements := by
    obtain ⟨σ, rfl⟩ := exists_assignment (perm.nodup_iff.mpr nodup)
      ((Index.length_of_isIn hi).trans (List.length_map _))
    rw [offset]
    exact Index.offset_lt (inRange σ fun a ha => Index.isIn_map.mp hi a (perm.mem_iff.mpr ha))
  obtain ⟨u, made, shape, element⟩ := exists_gather bound
  refine ⟨u, ?_, shape, ?_⟩
  · rw [permute, rank, if_pos (isPerm_positions nodup perm), ← hw, hs, Shape.pick?_map sub,
      Shape.pick?_map sub]
    exact made
  · intro σ h
    rw [element _ (Index.isIn_map.mpr fun a ha => h a (sub a ha)), offset, get?_eq (inRange σ h)]

end Labels

/-- Permuting arranges the shape, and the element at an index is found at the arranged index. -/
theorem exists_arranged {positions : List Nat} (h : positions.Perm (List.range t.rank)) :
    ∃ u, t.permute positions = .ok u ∧ u.shape = arrange t.shape positions
      ∧ ∀ i : Index, i.length = t.rank → u.get? (arrange i positions) = t.get? i := by
  -- the labels of the axes are their positions
  obtain ⟨u, made, shape, element⟩ := exists_permute List.nodup_range h (arrange_range t.shape).symm
  rw [map_idxOf_range fun k hk => List.mem_range.mp (h.subset hk)] at made
  refine ⟨u, made, shape, fun i len => ?_⟩
  have whole : arrange i (List.range t.rank) = i := len ▸ arrange_range i
  by_cases inside : i.isIn t.shape = true
  · have inRange : InRange (t.shape.getD · 0) (i.getD · 0) (List.range t.rank) := by
      rw [← whole, ← arrange_range t.shape] at inside
      exact Index.isIn_map.mp inside
    exact (element _ inRange).trans (congrArg t.get? whole)
  · have outside := (isIn_arrange h len).not.mpr inside
    rw [get?, get?, if_neg inside, shape]
    exact if_neg outside

lemma shape_of_gather {shape : Shape} {strides : List Nat} (h : t.gather shape strides = .ok u) :
    u.shape = shape := by
  obtain ⟨_, _, made⟩ := bind_eq_ok.mp h
  exact (ofArray_eq_ok.mp made).1

/-- What a permutation asks for, and the shape that it leads to. -/
lemma of_permute {axes : List Nat} (h : t.permute axes = .ok u) :
    axes.length = t.rank ∧ t.shape.pick? axes = some u.shape := by
  unfold permute at h
  split at h
  · next isPerm =>
    refine ⟨by rw [(List.isPerm_iff.mp isPerm).length_eq, List.length_range], ?_⟩
    split at h
    · next shape _ => rw [shape_of_gather h, shape]
    · cases h
  · cases h

/-- Permuting the axes into the order in which they are changes nothing. -/
lemma eq_of_permute_inOrder {axes : List Nat} (order : inOrder axes = true)
    (h : t.permute axes = .ok u) : u = t := by
  obtain ⟨len, -⟩ := of_permute h
  obtain rfl : axes = List.range t.rank := len ▸ eq_of_beq order
  obtain ⟨v, made, shape, element⟩ := exists_arranged (t := t) (List.Perm.refl _)
  obtain rfl : u = v := Except.ok.inj (h.symm.trans made)
  have same : u.shape = t.shape := shape.trans (arrange_range t.shape)
  refine ext_get same fun i hi => ?_
  have len : i.length = t.rank := by rw [Index.length_of_isIn hi, same]; rfl
  have e := element i len
  rwa [← len, arrange_range] at e

/-! ## Expanding -/

/-- The index that is read for an index of an expanded tensor: along axes of size one it is zero. -/
def squash (shape : Shape) (i : Index) : Index :=
  List.zipWith (fun d k => if d = 1 then 0 else k) shape i

/-- An index of the expanded shape is squashed into the shape, and the spread strides find it. -/
lemma squash_isIn {shape target : Shape} (h : shape.broadcasts target = true) {i : Index}
    (hi : i.isIn target = true) :
    (squash shape i).isIn shape = true
      ∧ i.offset shape.spreadStrides = (squash shape i).offset shape.strides := by
  induction shape generalizing target i with
  | nil => cases i <;> exact ⟨rfl, rfl⟩
  | cons d ds ih =>
    cases target with
    | nil => simp [Shape.broadcasts] at h
    | cons e es =>
      cases i with
      | nil => simp [Index.isIn] at hi
      | cons k ks =>
        simp only [Shape.broadcasts, Bool.and_eq_true, Bool.or_eq_true, decide_eq_true_eq] at h
        simp only [Index.isIn, Bool.and_eq_true, decide_eq_true_eq] at hi
        obtain ⟨inside, offset⟩ := ih h.2 hi.2
        simp only [squash, Shape.spreadStrides, Shape.strides, List.zipWith_cons_cons, Index.isIn,
          Index.offset, Bool.and_eq_true, decide_eq_true_eq] at inside offset ⊢
        by_cases one : d = 1
        · refine ⟨⟨by simp [one], inside⟩, ?_⟩
          rw [if_pos one, if_pos one, offset, Nat.mul_zero, Nat.zero_mul]
        · have below : k < d := by omega
          refine ⟨⟨by rwa [if_neg one], inside⟩, ?_⟩
          rw [if_neg one, if_neg one, offset]

/-- Expanding repeats the elements along axes of size one. -/
theorem exists_expand {target : Shape} (h : t.shape.broadcasts target = true) :
    ∃ u, t.expand target = .ok u ∧ u.shape = target
      ∧ ∀ i : Index, i.isIn target = true → u.get? i = t.get? (squash t.shape i) := by
  have bound (i : Index) (hi : i.isIn target = true) :
      i.offset t.shape.spreadStrides < t.shape.elements := by
    obtain ⟨inside, offset⟩ := squash_isIn h hi
    rw [offset]
    exact Index.offset_lt inside
  obtain ⟨u, made, shape, element⟩ := exists_gather bound
  refine ⟨u, ?_, shape, ?_⟩
  · rw [expand, if_pos h]
    exact made
  · intro i hi
    obtain ⟨inside, offset⟩ := squash_isIn h hi
    rw [element i hi, offset, get?_eq inside]

end Tensor

end AxisNotation
