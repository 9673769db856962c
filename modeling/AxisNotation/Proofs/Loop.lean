import AxisNotation.Proofs.Reduction
import AxisNotation.Proofs.Words

/-!
# What the loops come to

Every access of the loops finds its entry. The strides are those of the shape, as far as words hold
them (`Loop.strides_eq`), marking accepts distinct axes of the rank (`Loop.mark_start`), and the
odometer visits the indices of a shape once each in row-major order (`Loop.visit_eq`): a carry
either adds one to the number of an index or runs out at the last index (`Loop.carry_cases`), so
counting up passes through all that are left (`Loop.sweeps_from`).
-/

namespace AxisNotation

lemma Shape.getElem?_strides {shape : Shape} {n : Nat} (h : n < shape.length) :
    shape.strides[n]? = some (elements (shape.drop (n + 1))) := by
  induction shape generalizing n with
  | nil => exact absurd h (Nat.not_lt_zero n)
  | cons d ds ih =>
    cases n with
    | zero => rfl
    | succ n => exact ih (Nat.lt_of_succ_lt_succ h)

namespace Index

variable {j : Index} {s : Shape} {d k : Nat}

/-- The last coordinate of an index is below the last dimension, and the others are an index of the
others. -/
lemma exists_concat {i : Index} (hi : i.isIn (s ++ [d]) = true) :
    ∃ (j : Index) (k : Nat), i = j ++ [k] ∧ j.isIn s = true ∧ k < d := by
  have pointwise := isIn_iff.mp hi
  have first := List.forall₂_take_append i s [d] pointwise
  obtain ⟨k, _, hk, empty, last⟩ :=
    List.forall₂_cons_right_iff.mp (List.forall₂_drop_append i s [d] pointwise)
  obtain rfl := List.forall₂_nil_right_iff.mp empty
  refine ⟨i.take s.length, k, ?_, isIn_iff.mpr first, hk⟩
  rw [← last, List.take_append_drop]

lemma isIn_concat (hj : j.isIn s = true) (hk : k < d) : isIn (j ++ [k]) (s ++ [d]) = true :=
  isIn_append hj (isIn_iff.mpr (.cons hk .nil))

lemma offset_concat (hj : j.isIn s = true) :
    offset (j ++ [k]) (Shape.strides (s ++ [d])) = j.offset (Shape.strides s) * d + k := by
  rw [offset_append (length_of_isIn hj)]
  simp [Shape.elements, Shape.strides, offset]

end Index

namespace Loop

open Shape (wrap)

variable {β : Type} {shape : Shape} {index : Array Nat} {n : Nat}

lemma fetch_eq_ok {entry : Option β} {x : β} : fetch entry = .ok x ↔ entry = some x := by
  cases entry with
  | none => exact ⟨nofun, nofun⟩
  | some y => exact ⟨fun h => congrArg some (Except.ok.inj h), fun h => by cases h; rfl⟩

lemma store_eq {xs : Array β} {place : Nat} (h : place < xs.size) (x : β) :
    store xs place x = .ok (xs.setIfInBounds place x) :=
  if_pos h

/-! ## Strides -/

/-- Each stride comes from the one after it, so those of the last axes are right at any time. -/
lemma fillStrides_eq {strides : Array Nat} (size : strides.size = shape.length)
    (filled : ∀ k, n ≤ k → k < shape.length → strides[k]? = shape.strides[k]?.map wrap)
    (hn : n ≤ shape.length - 1) :
    fillStrides shape n strides = .ok (shape.strides.map wrap).toArray := by
  induction n generalizing strides with
  | zero =>
    refine congrArg Except.ok (Array.ext_getElem? fun k => ?_)
    simp only [List.getElem?_toArray, List.getElem?_map]
    by_cases hk : k < shape.length
    · exact filled k (Nat.zero_le k) hk
    · have none : shape.strides[k]? = none := by
        rw [List.getElem?_eq_none_iff, Shape.length_strides]
        omega
      rw [Array.getElem?_eq_none (by omega), none, Option.map_none]
  | succ n ih =>
    have hn : n + 1 < shape.length := by omega
    have stride := filled (n + 1) (Nat.le_refl _) hn
    rw [Shape.getElem?_strides hn, Option.map_some] at stride
    rw [fillStrides, stride, List.getElem?_eq_getElem hn]
    show (store strides n _ >>= fillStrides shape n) = _
    rw [store_eq (by omega)]
    refine ih (by rw [Array.size_setIfInBounds, size]) (fun k hk hk' => ?_) (by omega)
    by_cases e : k = n
    · subst e
      rw [Array.getElem?_setIfInBounds_self_of_lt (by omega), Shape.getElem?_strides hk',
        List.drop_eq_getElem_cons hn, Shape.elements, Nat.mul_comm, Option.map_some,
        Shape.mul_wrap]
    · rw [Array.getElem?_setIfInBounds_ne (by omega)]
      exact filled k (by omega) hk'

/-- The strides of a shape are computed as words hold them. -/
theorem strides_eq (shape : Shape) : strides shape = .ok (shape.strides.map wrap).toArray := by
  refine fillStrides_eq Array.size_replicate (fun k hk hk' => ?_) (Nat.le_refl _)
  have last : k + 1 = shape.length := by omega
  rw [Array.getElem?_replicate, if_pos hk', Shape.getElem?_strides hk', last, List.drop_length]
  rfl

/-! ## Sets of axes -/

variable {rank : Nat} {marks : Array Bool} {axes : List Nat}

lemma mark_distinct (size : marks.size = rank) (nodup : axes.Nodup)
    (fresh : ∀ a ∈ axes, marks[a]? = some false) :
    ∃ marks', mark rank marks axes = .ok (some marks')
      ∧ ∀ k : Nat, marks'[k]? = if k ∈ axes then some true else marks[k]? := by
  induction axes generalizing marks with
  | nil => exact ⟨marks, rfl, fun k => rfl⟩
  | cons a axes ih =>
    obtain ⟨absent, nodup⟩ := List.nodup_cons.mp nodup
    obtain ⟨fresh_a, fresh⟩ := List.forall_mem_cons.mp fresh
    obtain ⟨bound, -⟩ := Array.getElem?_eq_some_iff.mp fresh_a
    obtain ⟨marks', marked, entries⟩ := @ih (marks.setIfInBounds a true)
      (by rw [Array.size_setIfInBounds, size]) nodup fun k hk => by
        rw [Array.getElem?_setIfInBounds_ne fun e : a = k => absent (e ▸ hk)]
        exact fresh k hk
    refine ⟨marks', ?_, fun k => ?_⟩
    · rw [mark, if_pos (size ▸ bound), fresh_a]
      show (store marks a true >>= fun marks => mark rank marks axes) = _
      rw [store_eq bound]
      exact marked
    · rw [entries]
      by_cases e : k = a
      · subst e
        rw [if_neg absent, if_pos List.mem_cons_self,
          Array.getElem?_setIfInBounds_self_of_lt bound]
      · rw [Array.getElem?_setIfInBounds_ne (Ne.symm e)]
        simp [e]

/-- Marking ends without a result at the first axis that is outside or marked already. -/
lemma mark_refused (size : marks.size = rank)
    (h : ¬ (axes.Nodup ∧ ∀ a ∈ axes, marks[a]? = some false)) :
    mark rank marks axes = .ok none := by
  induction axes generalizing marks with
  | nil => exact absurd ⟨List.nodup_nil, nofun⟩ h
  | cons a axes ih =>
    rw [mark]
    split
    · next bound =>
      have bound := size.symm ▸ bound
      rw [Array.getElem?_eq_getElem bound]
      cases marked : marks[a] with
      | true => rfl
      | false =>
        show (store marks a true >>= fun marks => mark rank marks axes) = _
        rw [store_eq bound]
        refine ih (by rw [Array.size_setIfInBounds, size]) fun rest => h ?_
        obtain ⟨nodup, fresh⟩ := rest
        have absent : a ∉ axes := fun ha => by
          have twice := fresh a ha
          rw [Array.getElem?_setIfInBounds_self_of_lt bound] at twice
          cases twice
        refine ⟨List.nodup_cons.mpr ⟨absent, nodup⟩, List.forall_mem_cons.mpr ⟨?_, fun k hk => ?_⟩⟩
        · rw [Array.getElem?_eq_getElem bound, marked]
        · rw [← fresh k hk,
            Array.getElem?_setIfInBounds_ne fun e : a = k => absent (e ▸ hk)]
    · rfl

/-- Marking accepts distinct axes of the rank, and marks these and no others. -/
theorem mark_start (rank : Nat) (axes : List Nat) :
    mark rank (.replicate rank false) axes = .ok (if axes.Nodup ∧ ∀ a ∈ axes, a < rank
      then some ((List.range rank).map fun k => decide (k ∈ axes)).toArray else none) := by
  have fresh (a : Nat) : (Array.replicate rank false)[a]? = some false ↔ a < rank := by
    rw [Array.getElem?_replicate]
    split
    · next h => exact ⟨fun _ => h, fun _ => rfl⟩
    · next h => exact ⟨nofun, fun h' => absurd h' h⟩
  split
  · next h =>
    obtain ⟨marks, marked, entries⟩ :=
      mark_distinct Array.size_replicate h.1 fun a ha => (fresh a).mpr (h.2 a ha)
    rw [marked]
    refine congrArg (fun m => Except.ok (some m)) (Array.ext_getElem? fun k => ?_)
    simp only [entries, List.getElem?_toArray, List.getElem?_map]
    by_cases hk : k < rank
    · rw [List.getElem?_range hk, (fresh k).mpr hk]
      split
      · next ha => simp [ha]
      · next ha => simp [ha]
    · have absent : k ∉ axes := fun ha => hk (h.2 k ha)
      rw [if_neg absent, Array.getElem?_eq_none (by rwa [Array.size_replicate, ← Nat.not_lt]),
        List.getElem?_eq_none (by rwa [List.length_range, ← Nat.not_lt])]
      rfl
  · next h =>
    refine mark_refused Array.size_replicate fun h' => h ⟨h'.1, fun a ha => ?_⟩
    exact (fresh a).mp (h'.2 a ha)

/-- As many distinct numbers below the rank as there are make a permutation. -/
lemma perm_range_iff : axes.Perm (List.range rank)
    ↔ axes.length = rank ∧ axes.Nodup ∧ ∀ a ∈ axes, a < rank := by
  constructor
  · intro h
    exact ⟨h.length_eq.trans List.length_range, h.nodup_iff.mpr List.nodup_range,
      fun a ha => List.mem_range.mp (h.subset ha)⟩
  · rintro ⟨len, nodup, range⟩
    have subset : axes ⊆ List.range rank := fun a ha => List.mem_range.mpr (range a ha)
    exact (List.subperm_of_subset nodup subset).perm_of_length_le
      (by rw [List.length_range, len])

theorem isPermutation_eq (rank : Nat) (axes : List Nat) :
    isPermutation rank axes = .ok (axes.isPerm (List.range rank)) := by
  rw [isPermutation]
  have decides (p : Bool) (h : p = true ↔ axes.Perm (List.range rank)) :
      p = axes.isPerm (List.range rank) := by
    rw [Bool.eq_iff_iff, h, List.isPerm_iff]
  split
  · next len =>
    rw [mark_start]
    refine congrArg Except.ok (decides _ ?_)
    rw [perm_range_iff]
    split
    · next h => exact ⟨fun _ => ⟨len, h⟩, fun _ => rfl⟩
    · next h => exact ⟨nofun, fun h' => absurd h'.2 h⟩
  · next len =>
    exact congrArg Except.ok (decides _ ⟨nofun, fun h => absurd (perm_range_iff.mp h).1 len⟩)

/-! ## The odometer -/

/-- The last of the coordinates that count either counts up or goes back to zero. -/
lemma carry_last {s : Shape} {j : Index} (len : j.length = s.length) (k d : Nat) (rest : Index)
    (u : Shape) :
    carry (s ++ d :: u) (j ++ k :: rest).toArray (s.length + 1)
      = if k + 1 < d then .ok (some (j ++ (k + 1) :: rest).toArray)
        else carry (s ++ d :: u) (j ++ 0 :: rest).toArray s.length := by
  have coordinate : (j ++ k :: rest).toArray[s.length]? = some k := by
    rw [List.getElem?_toArray, ← len, List.getElem?_append_right (Nat.le_refl _), Nat.sub_self]
    rfl
  have size : (s ++ d :: u)[s.length]? = some d := by
    rw [List.getElem?_append_right (Nat.le_refl _), Nat.sub_self]
    rfl
  have stored (c : Nat) : store (j ++ k :: rest).toArray s.length c
      = .ok (j ++ c :: rest).toArray := by
    have bound : s.length < (j ++ k :: rest).toArray.size := by simp [len]
    rw [store_eq bound, List.setIfInBounds_toArray, ← len,
      List.set_append_right _ _ (Nat.le_refl _), Nat.sub_self]
    rfl
  rw [carry, coordinate, size]
  show (if k + 1 < d then store _ _ _ >>= fun next => pure (some next)
    else store _ _ _ >>= fun next => carry _ next _) = _
  rw [stored, stored]
  rfl

/-- A carry into the first coordinates, the others being as they may: either the index that follows
takes their place, or they were the last. -/
theorem carry_cases {s : Shape} {i : Index} (hi : i.isIn s = true) (u : Shape) (rest : Index) :
    (carry (s ++ u) (i ++ rest).toArray s.length = .ok none
        ∧ i.offset (Shape.strides s) + 1 = Shape.elements s)
      ∨ ∃ next : Index, carry (s ++ u) (i ++ rest).toArray s.length
            = .ok (some (next ++ rest).toArray)
          ∧ next.isIn s = true
          ∧ next.offset (Shape.strides s) = i.offset (Shape.strides s) + 1 := by
  induction s using List.reverseRecOn generalizing i u rest with
  | nil =>
    obtain rfl := List.length_eq_zero_iff.mp (Index.length_of_isIn hi)
    exact .inl ⟨rfl, rfl⟩
  | append_singleton s d ih =>
    obtain ⟨j, k, rfl, hj, hk⟩ := Index.exists_concat hi
    rw [List.length_append, List.length_singleton, List.append_assoc, List.append_assoc,
      List.singleton_append, List.singleton_append, carry_last (Index.length_of_isIn hj)]
    split
    · next less =>
      refine .inr ⟨j ++ [k + 1], ?_, Index.isIn_concat hj less, ?_⟩
      · rw [List.append_assoc, List.singleton_append]
      · rw [Index.offset_concat hj, Index.offset_concat hj, Nat.add_assoc]
    · next most =>
      -- the coordinate was its greatest, and zero with one more before it is one more in all
      obtain rfl : d = k + 1 := by omega
      obtain ⟨ends, last⟩ | ⟨next, carried, inside, succ⟩ := ih hj ((k + 1) :: u) (0 :: rest)
      · refine .inl ⟨ends, ?_⟩
        rw [Index.offset_concat hj, Shape.elements_append, ← last, Shape.elements, Shape.elements]
        ring
      · refine .inr ⟨next ++ [0], ?_, Index.isIn_concat inside (Nat.succ_pos k), ?_⟩
        · rw [carried, List.append_assoc, List.singleton_append]
        · rw [Index.offset_concat inside, Index.offset_concat hj, succ]
          ring

lemma drop_indices {shape : Shape} {i : Index} (hi : i.isIn shape = true) :
    shape.indices.drop (i.offset shape.strides)
      = i :: shape.indices.drop (i.offset shape.strides + 1) := by
  obtain ⟨bound, e⟩ := List.getElem?_eq_some_iff.mp (Shape.getElem?_indices hi)
  rw [List.drop_eq_getElem_cons bound, e]

/-- Counting up from an index passes through the given indices, and runs out at the last. -/
inductive Sweeps (shape : Shape) : Array Nat → List Index → Prop where
  | last {index : Array Nat} :
    carry shape index shape.length = .ok none → Sweeps shape index [index.toList]
  | next {index following : Array Nat} {rest : List Index} :
    carry shape index shape.length = .ok (some following) → Sweeps shape following rest →
    Sweeps shape index (index.toList :: rest)

/-- Counting up from an index passes through the indices that come from its place on. -/
theorem sweeps_from {i : Index} (hi : i.isIn shape = true) :
    Sweeps shape i.toArray (shape.indices.drop (i.offset shape.strides)) := by
  -- each carry leaves one index less
  generalize left : shape.elements - i.offset shape.strides = n
  induction n using Nat.strong_induction_on generalizing i with
  | _ n ih =>
    have bound := Index.offset_lt hi
    have cases := carry_cases hi [] []
    rw [List.append_nil, List.append_nil] at cases
    rw [drop_indices hi]
    obtain ⟨ends, last⟩ | ⟨next, carried, inside, succ⟩ := cases
    · rw [last, ← Shape.length_indices, List.drop_length]
      exact .last ends
    · rw [List.append_nil] at carried
      rw [← succ]
      exact .next carried (ih _ (by omega) inside rfl)

/-- On a shape without an empty axis, counting up from zeros passes through all indices. -/
lemma sweeps_indices (positive : 0 ∉ shape) :
    Sweeps shape (.replicate shape.length 0) shape.indices := by
  have zeros : Array.replicate shape.length 0 = (shape.map fun _ => 0).toArray := by
    rw [← List.toArray_replicate, List.map_const']
  have inside : Index.isIn (shape.map fun _ => 0) shape = true := by
    rw [Index.isIn_iff, List.forall₂_map_left_iff, List.forall₂_same]
    exact fun d hd => Nat.pos_of_ne_zero fun zero => positive (zero ▸ hd)
  have sweeps := sweeps_from inside
  rwa [← zeros, Index.offset_zeros, List.drop_zero] at sweeps

variable {σ : Type} {f : σ → Index → Except TensorError σ}

/-- The indices that are passed through are visited, in this order. -/
lemma Sweeps.visitFrom_eq {visited : List Index} (h : Sweeps shape index visited) (state : σ) :
    visitFrom shape f state index = visited.foldlM f state := by
  induction h generalizing state with
  | last ends =>
    rw [visitFrom, List.foldlM_cons]
    refine bind_congr fun state => ?_
    split
    · next error => cases ends.symm.trans error
    · rfl
    · next carried => cases ends.symm.trans carried
  | next carried _ ih =>
    rw [visitFrom, List.foldlM_cons]
    refine bind_congr fun state => ?_
    split
    · next error => cases carried.symm.trans error
    · next ended => cases carried.symm.trans ended
    · next carried' =>
      cases Except.ok.inj (carried.symm.trans carried')
      exact ih state

/-- The odometer visits the indices of a shape once each, in row-major order. -/
theorem visit_eq (shape : Shape) (f : σ → Index → Except TensorError σ) (state : σ) :
    visit shape f state = shape.indices.foldlM f state := by
  unfold visit
  split
  · next empty =>
    rw [Shape.indices_eq_box, Shape.box_of_zero_mem empty]
    rfl
  · next positive => exact (sweeps_indices positive).visitFrom_eq state

end Loop

end AxisNotation
