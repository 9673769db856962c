import AxisNotation.Proofs.Contract
import AxisNotation.Proofs.Scatter

/-!
# Buffers

The buffer of a tensor does what the tensor does, error for error, as long as no number of elements
that a call counts leaves the range of a word (`Tensor.perform_buffer`). Moving elements reads them
from the places that wrapped strides give (`Tensor.gather_buffer`). A reduction reads every element
once and ends with the combinations of all lines in its slots (`Tensor.reduce_buffer`).
-/

namespace AxisNotation

open Loop
open Shape (wrap)

/-! ## Gathering -/

namespace Loop

variable {β γ : Type}

lemma mapM_fetch (g : β → Option γ) (xs : List β) :
    xs.mapM (fun x => fetch (g x)) = fetch (xs.mapM g) := by
  induction xs with
  | nil => rfl
  | cons x xs ih =>
    rw [List.mapM_cons, List.mapM_cons, ih]
    cases g x with
    | none => rfl
    | some y =>
      cases xs.mapM g with
      | none => rfl
      | some ys => rfl

/-- Filling an array with computed elements is computing the elements. -/
lemma foldlM_push (f : β → Except TensorError γ) (xs : List β) (data : Array γ) :
    xs.foldlM (fun data x => return data.push (← f x)) data
      = (xs.mapM f).map fun ys => data ++ ys.toArray := by
  induction xs generalizing data with
  | nil => exact congrArg Except.ok (Array.append_empty).symm
  | cons x xs ih =>
    rw [List.foldlM_cons, List.mapM_cons]
    cases f x with
    | error e => rfl
    | ok y =>
      show xs.foldlM _ (data.push y) = _
      rw [ih]
      cases xs.mapM f with
      | error e => rfl
      | ok ys => exact congrArg Except.ok (by simp)

end Loop

/-- A shape broadcasts to shapes of its rank that change only dimensions of one. -/
lemma Shape.broadcasts_iff {shape target : Shape} : shape.broadcasts target = true
    ↔ target.length = shape.length ∧ (shape.zip target).all fun (d, e) => d = e || d = 1 := by
  induction shape generalizing target with
  | nil => cases target <;> simp [broadcasts]
  | cons d ds ih =>
    cases target with
    | nil => simp [broadcasts]
    | cons e es =>
      simp only [broadcasts, ih, List.length_cons, List.zip_cons_cons, List.all_cons,
        Bool.and_eq_true, Nat.succ_inj]
      exact and_left_comm

lemma Shape.broadcasts_of_forall₂ {shape target : Shape}
    (h : List.Forall₂ (fun d e => d = e ∨ d = 1) shape target) :
    shape.broadcasts target = true := by
  induction h with
  | nil => rfl
  | cons first _ ih => simpa [broadcasts, ih] using first

lemma Shape.pick?_wrap {s u : List Nat} {axes : List Nat} (h : pick? s axes = some u) :
    pick? (s.map wrap) axes = some (u.map wrap) := by
  refine mapM_eq_some.mpr (List.forall₂_map_right_iff.mpr ((mapM_eq_some.mp h).imp ?_))
  intro a w found
  rw [List.getElem?_map, found, Option.map_some]

namespace Tensor

variable {α : Type}

/-- A tensor as it lies in memory. -/
def buffer (t : Tensor α) : Buffer α :=
  ⟨t.shape, t.data⟩

variable (t : Tensor α)

@[simp] lemma buffer_shape : t.buffer.shape = t.shape :=
  rfl

section Stated

variable {t} (stated : t.shape.Stated)

include stated

/-- Where the offsets of the indices are in the tensor, their places are as well. -/
lemma gather_buffer {u : Tensor α} {shape : Shape} {strides : List Nat}
    (made : t.gather shape strides = .ok u) :
    t.buffer.gather shape (strides.map wrap) = .ok u.buffer := by
  obtain ⟨elements, computed, array⟩ := bind_eq_ok.mp made
  obtain ⟨rfl, data⟩ := ofArray_eq_ok.mp array
  have found := mapM_eq_ok.mp computed
  have read : u.shape.indices.mapM (fun i => fetch t.data[place i (strides.map wrap)]?)
      = .ok elements := by
    refine mapM_eq_ok.mpr (found.imp fun i x h => ?_)
    have h := read_eq_ok.mp h
    obtain ⟨bound, -⟩ := Array.getElem?_eq_some_iff.mp h
    rw [place_of_le (bound.le.trans (t.size_data.trans_le stated)), fetch_eq_ok, h]
  rw [Buffer.gather, visit_eq]
  show u.shape.indices.foldlM
    (fun data i => return data.push (← fetch t.data[place i (strides.map wrap)]?)) #[] >>= _ = _
  rw [foldlM_push, read]
  show Except.ok (Buffer.mk u.shape (#[] ++ elements.toArray)) = .ok ⟨u.shape, u.data⟩
  rw [data, Array.empty_append]

lemma permute_buffer (axes : List Nat) :
    t.buffer.permute axes = (t.permute axes).map buffer := by
  have sizes : (axes.mapM fun a => fetch t.shape[a]?) = fetch (t.shape.pick? axes) :=
    mapM_fetch (fun a => t.shape[a]?) axes
  have steps : (axes.mapM fun a => fetch (t.shape.strides.map wrap).toArray[a]?)
      = fetch (Shape.pick? (t.shape.strides.map wrap) axes) := by
    simp only [List.getElem?_toArray]
    exact mapM_fetch (fun a => (t.shape.strides.map wrap)[a]?) axes
  rw [Buffer.permute, buffer_shape, isPermutation_eq]
  show (if axes.isPerm (List.range t.shape.length) = true then _ else _) = _
  by_cases h : axes.isPerm (List.range t.shape.length) = true
  · obtain ⟨u, made, -⟩ := exists_arranged (List.isPerm_iff.mp h)
    rw [made, if_pos h, strides_eq]
    show ((axes.mapM fun a => fetch t.shape[a]?) >>= fun shape =>
      (axes.mapM fun a => fetch (t.shape.strides.map wrap).toArray[a]?) >>= t.buffer.gather shape)
        = .ok u.buffer
    rw [Tensor.permute, Tensor.rank, if_pos h] at made
    rw [sizes, steps]
    split at made
    · next shape strides picked moved =>
      rw [picked, Shape.pick?_wrap moved]
      exact gather_buffer stated made
    · cases made
  · rw [if_neg h, Tensor.permute, Tensor.rank, if_neg h]
    rfl

lemma transpose_buffer : t.buffer.transpose = t.transpose.map buffer := by
  show (if t.shape.length = 2 then t.buffer.permute [1, 0] else _) = _
  unfold Tensor.transpose Tensor.rank
  split
  · exact permute_buffer stated [1, 0]
  · rfl

lemma expand_buffer (target : Shape) : t.buffer.expand target = (t.expand target).map buffer := by
  have spread : List.zipWith (fun d s => if d = 1 then 0 else s) t.shape (t.shape.strides.map wrap)
      = t.shape.spreadStrides.map wrap := by
    rw [Shape.spreadStrides, List.map_zipWith, List.zipWith_map_right]
    refine congrArg (List.zipWith · _ _) (funext fun d => funext fun s => ?_)
    exact (apply_ite wrap (d = 1) 0 s).symm
  rw [Buffer.expand, buffer_shape, strides_eq]
  by_cases h : t.shape.broadcasts target = true
  · obtain ⟨u, made, -⟩ := exists_expand h
    rw [made, if_pos (Shape.broadcasts_iff.mp h)]
    rw [Tensor.expand, if_pos h] at made
    show t.buffer.gather target
      (List.zipWith (fun d s => if d = 1 then 0 else s) t.shape (t.shape.strides.map wrap)) = _
    rw [spread]
    exact gather_buffer stated made
  · rw [if_neg fun h' => h (Shape.broadcasts_iff.mpr h'), Tensor.expand, if_neg h]
    rfl

end Stated

lemma reshape_buffer {target : Shape} (stated : target.Stated) :
    t.buffer.reshape target = (t.reshape target).map buffer := by
  rw [Buffer.reshape, Buffer.ofArray, stated.count, Tensor.reshape, Tensor.ofArray]
  show (if t.data.size = target.elements then _ else _) = _
  split <;> rfl

end Tensor

/-! ## Reducing -/

namespace Shape

variable (shape : Shape) (axes : List Nat)

/-- The axes of a shape, marked where they are listed. -/
def marks : List Bool :=
  (List.range shape.length).map fun k => decide (k ∈ axes)

lemma length_marks : (shape.marks axes).length = shape.length := by
  rw [marks, List.length_map, List.length_range]

lemma unmarked_marks : shape.unmarked (shape.marks axes) = shape.flatten axes := by
  apply List.ext_getElem
  · rw [unmarked, List.length_zipWith, length_marks, Nat.min_self, flatten, List.length_mapIdx]
  · intro k hk hk'
    simp [unmarked, marks, flatten]

lemma marked_marks : shape.marked (shape.marks axes) = shape.isolate axes := by
  apply List.ext_getElem
  · rw [marked, List.length_zipWith, length_marks, Nat.min_self, isolate, List.length_mapIdx]
  · intro k hk hk'
    simp [marked, marks, isolate]

/-- An element lies at an index of the kept axes and one of the reduced axes. -/
lemma elements_flatten_mul_isolate :
    (shape.flatten axes).elements * (shape.isolate axes).elements = shape.elements := by
  rw [flatten, isolate, elements_eq_prod, elements_eq_prod, elements_eq_prod]
  -- for the induction the positions of the axes start anywhere
  suffices h : ∀ P : Nat → Prop, [DecidablePred P] →
      (shape.mapIdx fun k d => if P k then 1 else d).prod
        * (shape.mapIdx fun k d => if P k then d else 1).prod = shape.prod from h (· ∈ axes)
  induction shape with
  | nil => exact fun P _ => rfl
  | cons d ds ih =>
    intro P _
    have rest := ih fun k => P (k + 1)
    rw [List.mapIdx_cons, List.mapIdx_cons, List.prod_cons, List.prod_cons, List.prod_cons,
      Nat.mul_mul_mul_comm, rest]
    split
    · rw [Nat.one_mul]
    · rw [Nat.mul_one]

lemma filter_marks :
    ((shape.zip (shape.marks axes)).filter fun (_, r) => !r).map Prod.fst
      = shape.dropAxes axes := by
  rw [marks, dropAxes, List.zip_map_right, List.range_eq_range', ← List.zipIdx_eq_zip_range',
    List.filter_map, List.map_map]
  simp [Function.comp_def]

variable {shape axes}

/-- The elements along the reduced axes can be counted, unless there is no slot. -/
lemma wrap_isolate (stated : shape.Stated) (slots : 0 < (shape.flatten axes).elements) :
    wrap (shape.isolate axes).elements = (shape.isolate axes).elements := by
  refine wrap_of_le (le_trans ?_ stated)
  rw [← elements_flatten_mul_isolate shape axes]
  exact Nat.le_mul_of_pos_left _ slots

/-- The sizes of the axes multiply to the number of elements along them. -/
lemma elements_isolate (nodup : axes.Nodup) (range : ∀ a ∈ axes, a < shape.length) :
    (shape.isolate axes).elements = (axes.map fun a => shape.getD a 0).prod := by
  have positions : shape.isolate axes
      = (List.range shape.length).map fun k => if k ∈ axes.toFinset then shape.getD k 0 else 1 := by
    apply List.ext_getElem
    · rw [isolate, List.length_mapIdx, List.length_map, List.length_range]
    · intro k hk hk'
      rw [isolate, List.length_mapIdx] at hk
      simp [isolate, hk]
  have inside : (List.range shape.length).toFinset ∩ axes.toFinset = axes.toFinset := by
    rw [Finset.inter_eq_right]
    intro a ha
    rw [List.mem_toFinset, List.mem_range]
    exact range a (List.mem_toFinset.mp ha)
  rw [elements_eq_prod, positions, ← List.prod_toFinset _ List.nodup_range, Finset.prod_ite_mem,
    inside, List.prod_toFinset _ nodup]

end Shape

namespace Tensor

variable {α : Type} [Scalar α] {t u : Tensor α} {axes : List Nat} {reduction : Reduction}

/-- The strides that find slots in memory. -/
lemma slotStrides_wrap (shape : Shape) (marks : List Bool) :
    List.zipWith (fun s r => if r then 0 else s) ((shape.unmarked marks).strides.map wrap) marks
      = (shape.slotStrides marks).map wrap := by
  rw [Shape.slotStrides, List.map_zipWith, List.zipWith_map_left]
  refine congrArg (List.zipWith · _ _) (funext fun s => funext fun r => ?_)
  exact (apply_ite wrap (r = true) 0 s).symm

/-- The buffer of a tensor is reduced in one pass, unless it lacks an element. -/
lemma reduce_buffer_eq (kept : (t.shape.flatten axes).Stated) (keep : Bool) (nodup : axes.Nodup)
    (range : ∀ a ∈ axes, a < t.rank) :
    t.buffer.reduce axes reduction keep
      = if wrap (t.shape.isolate axes).elements = 0 ∧ 0 < (t.shape.flatten axes).elements
            ∧ reduction.needsElement then .error (.emptyReduction reduction)
        else (t.shape.indices.foldlM
            (Slots.add t.data ((t.shape.slotStrides (t.shape.marks axes)).map wrap) reduction)
            (Slots.empty reduction (t.shape.flatten axes).elements)).map fun slots =>
          ⟨if keep then t.shape.flatten axes else t.shape.dropAxes axes,
            slots.held.map (reduction.finish (wrap (t.shape.isolate axes).elements))⟩ := by
  have marked := mark_start t.shape.length axes
  rw [if_pos ⟨nodup, range⟩] at marked
  have sizes : (axes.mapM fun a => fetch t.shape[a]?)
      = .ok (axes.map fun a => t.shape.getD a 0) := by
    refine mapM_eq_ok_map fun a ha => fetch_eq_ok.mpr ?_
    have bound : a < t.shape.length := range a ha
    rw [List.getElem?_eq_getElem bound, List.getD_eq_getElem _ _ bound]
  have count : Shape.count (axes.map fun a => t.shape.getD a 0)
      = wrap (t.shape.isolate axes).elements := by
    rw [Shape.count_eq, Shape.elements_eq_prod, Shape.elements_isolate nodup range]
  have unmarked := t.shape.unmarked_marks axes
  have dropped := t.shape.filter_marks axes
  rw [Buffer.reduce, buffer_shape, marked]
  show (strides (t.shape.unmarked (t.shape.marks axes)) >>= _) = _
  rw [strides_eq]
  show ((axes.mapM fun a => fetch t.shape[a]?) >>= _) = _
  rw [sizes]
  show (if Shape.count (axes.map fun a => t.shape.getD a 0) = 0
        ∧ 0 < Shape.count (t.shape.unmarked (t.shape.marks axes)) ∧ reduction.needsElement
      then Except.error (TensorError.emptyReduction reduction)
      else visit t.shape (Slots.add t.data (List.zipWith (fun s r => if r then 0 else s)
            ((t.shape.unmarked (t.shape.marks axes)).strides.map wrap) (t.shape.marks axes))
            reduction)
          (Slots.empty reduction (Shape.count (t.shape.unmarked (t.shape.marks axes))))
        >>= fun slots => Except.ok (Buffer.mk
          (if keep then t.shape.unmarked (t.shape.marks axes)
            else ((t.shape.zip (t.shape.marks axes)).filter fun (_, r) => !r).map Prod.fst)
          (slots.held.map (reduction.finish
            (Shape.count (axes.map fun a => t.shape.getD a 0)))))) = _
  rw [count, slotStrides_wrap, unmarked, kept.count, dropped, visit_eq]
  rfl

/-- The element at an index of the shape; elsewhere it does not matter. -/
def entry (t : Tensor α) (i : Index) : α :=
  (t.get? i).getD Scalar.zero

/-- In storage order the elements are those of the indices in row-major order. -/
lemma toList_data (t : Tensor α) : t.data.toList = t.shape.indices.map t.entry := by
  apply List.ext_getElem
  · rw [Array.length_toList, t.size_data, List.length_map, Shape.length_indices]
  · intro k hk hk'
    rw [Array.length_toList, t.size_data] at hk
    obtain ⟨i, hi, rfl⟩ := Shape.exists_offset hk
    have place := Shape.getElem?_indices hi
    obtain ⟨_, e⟩ := List.getElem?_eq_some_iff.mp place
    rw [List.getElem_map, e, entry, get?_eq hi, Array.getElem?_eq_getElem, Option.getD_some,
      Array.getElem_toList]

lemma mapM_getD {β γ : Type} {f : β → Option γ} {xs : List β} {ys : List γ}
    (h : xs.mapM f = some ys) (default : γ) : ys = xs.map fun x => (f x).getD default := by
  have pointwise := mapM_eq_some.mp h
  clear h
  induction pointwise with
  | nil => rfl
  | cons found _ ih => rw [List.map_cons, found, Option.getD_some, ← ih]

/-- The line of an index of the kept axes is what its slot takes in the pass. -/
lemma line_eq {i : Index} {line : List α} (h : t.line? axes i = some line)
    (hi : i.isIn (t.shape.flatten axes) = true) :
    line = (t.shape.indices.filter fun j => j.offset (t.shape.slotStrides (t.shape.marks axes))
      = i.offset (t.shape.flatten axes).strides).map t.entry := by
  rw [← Shape.unmarked_marks] at hi
  rw [← Shape.unmarked_marks, Shape.indices_eq_box,
    Shape.filter_slot (t.shape.length_marks axes) hi, Shape.marked_marks, ← Shape.indices_eq_box,
    List.map_map]
  exact mapM_getD h Scalar.zero

/-- After the pass each slot holds the combination of its line, when it is finished. -/
lemma held_eq (stated : t.shape.Stated) {data : Array α} {n : Nat}
    (size : data.size = (t.shape.flatten axes).elements)
    (element : ∀ i : Index, i.isIn (t.shape.flatten axes) = true → ∃ line x,
      t.line? axes i = some line ∧ reduction.combine? line = some x
        ∧ data[i.offset (t.shape.flatten axes).strides]? = some x) :
    (Slots.ofFn n (t.shape.flatten axes).elements (t.shape.indices.foldl
        (fun c i => Slots.deposit reduction c
          (i.offset (t.shape.slotStrides (t.shape.marks axes))) (t.entry i))
        fun _ => (reduction.start, false))).held.map
      (reduction.finish (wrap (t.shape.isolate axes).elements)) = data := by
  refine Array.ext ?_ fun k hk hk' => ?_
  · rw [Array.size_map, size]
    exact Array.size_ofFn
  · obtain ⟨i, hi, rfl⟩ := Shape.exists_offset (size ▸ hk')
    obtain ⟨line, x, got, combined, value⟩ := element i hi
    have len := (mapM_eq_some.mp got).length_eq
    rw [Shape.length_indices] at len
    obtain ⟨_, value⟩ := Array.getElem?_eq_some_iff.mp value
    have count := Shape.wrap_isolate stated (Nat.zero_lt_of_lt (Index.offset_lt hi))
    rw [value, ← Reduction.finish_eq combined, ← len, line_eq got hi, Array.getElem_map]
    exact congrArg₂ reduction.finish count ((Array.getElem_ofFn _).trans
      (congrArg Prod.fst (Slots.foldl_deposit _ _ _ _)))

/-- Reducing the buffer of a tensor is reducing the tensor. -/
theorem reduce_buffer (stated : t.shape.Stated) {axes : List Nat}
    (kept : axes.Nodup → (∀ a ∈ axes, a < t.rank) → (t.shape.flatten axes).Stated)
    (reduction : Reduction) (keep : Bool) :
    t.buffer.reduce axes reduction keep = (t.reduce axes reduction keep).map buffer := by
  by_cases h : axes.Nodup ∧ ∀ a ∈ axes, a < t.rank
  · obtain ⟨nodup, range⟩ := h
    have kept := kept nodup range
    rw [reduce_buffer_eq kept keep nodup range]
    by_cases lacks : LacksElement t.shape axes reduction
    · have slots := Nat.pos_of_ne_zero lacks.2.2
      rw [reduce_of_lacksElement keep nodup range lacks, if_pos]
      · rfl
      · exact ⟨by rw [Shape.wrap_isolate stated slots, lacks.2.1], slots, lacks.1⟩
    · obtain ⟨u, made, shape, element⟩ := exists_reduce keep nodup range lacks
      have places (i : Index) (hi : i ∈ t.shape.indices) :
          i.offset (t.shape.slotStrides (t.shape.marks axes))
              < (t.shape.flatten axes).elements
            ∧ place i ((t.shape.slotStrides (t.shape.marks axes)).map wrap)
              = i.offset (t.shape.slotStrides (t.shape.marks axes)) := by
        have slot : i.offset (t.shape.slotStrides (t.shape.marks axes))
            < (t.shape.flatten axes).elements := by
          rw [← Shape.unmarked_marks]
          exact Shape.slot_lt (t.shape.length_marks axes) (Shape.mem_indices.mp hi)
        exact ⟨slot, place_of_le (slot.le.trans kept)⟩
      have size : u.data.size = (t.shape.flatten axes).elements := by
        rw [u.size_data, shape]
        cases keep
        · exact Shape.elements_dropAxes t.shape axes
        · rfl
      have enough : ¬ (wrap (t.shape.isolate axes).elements = 0
          ∧ 0 < (t.shape.flatten axes).elements ∧ reduction.needsElement = true) := by
        rintro ⟨none, slots, needs⟩
        rw [Shape.wrap_isolate stated slots] at none
        exact lacks ⟨needs, none, Nat.ne_of_gt slots⟩
      rw [made, if_neg enough, Slots.empty_eq,
        Slots.pass (by rw [List.drop_zero, t.toList_data])
          fun i hi => (places i hi).2.trans_lt (places i hi).1,
        List.foldl_ext _ _ _ fun c i hi => by rw [(places i hi).2]]
      exact congrArg Except.ok (congrArg₂ Buffer.mk shape.symm (held_eq stated size element))
  · have marked := (mark_start t.shape.length axes).trans (congrArg Except.ok (if_neg h))
    rw [Buffer.reduce, buffer_shape, marked, Tensor.reduce, if_neg h]
    rfl

end Tensor

/-! ## Calls -/

namespace Call

/-- No number of elements that a call counts leaves the range of a word. A call that does not fit a
shape is refused before anything is counted, except for a reshape. -/
def Counts (shape : Shape) : Call → Prop
  | reshape target => target.Stated
  | reduce axes _ _ => axes.Nodup → (∀ a ∈ axes, a < shape.length) → (shape.flatten axes).Stated
  | expand target => List.Forall₂ (fun d e => d = e ∨ d = 1) shape target → target.Stated
  | permute _ => True
  | transpose => True

instance (shape : Shape) : DecidablePred (Counts shape)
  | .reshape target => inferInstanceAs (Decidable target.Stated)
  | .reduce axes _ _ => inferInstanceAs (Decidable
      (axes.Nodup → (∀ a ∈ axes, a < shape.length) → (shape.flatten axes).Stated))
  | .expand target => inferInstanceAs (Decidable
      (List.Forall₂ (fun d e => d = e ∨ d = 1) shape target → target.Stated))
  | .permute _ => .isTrue trivial
  | .transpose => .isTrue trivial

/-- It is enough that the elements of the result can be counted. -/
lemma counts_of_outputShape {shape : Shape} {c : Call} (h : (c.outputShape shape).Stated) :
    c.Counts shape := by
  cases c with
  | reshape target => exact h
  | permute axes => trivial
  | transpose => trivial
  | expand target => exact fun _ => h
  | reduce axes reduction keep =>
    intro _ _
    cases keep with
    | true => exact h
    | false => exact (Shape.elements_dropAxes shape axes).symm.trans_le h

end Call

namespace Tensor

variable {α : Type} [Scalar α] {t : Tensor α} (stated : t.shape.Stated)

include stated

/-- The buffer of a tensor does what the tensor does. -/
theorem perform_buffer {c : Call} (counts : c.Counts t.shape) :
    t.buffer.perform c = (t.perform c).map buffer := by
  cases c with
  | reshape shape => exact t.reshape_buffer counts
  | permute axes => exact permute_buffer stated axes
  | transpose => exact transpose_buffer stated
  | reduce axes reduction keep => exact reduce_buffer stated counts reduction keep
  | expand shape => exact expand_buffer stated shape

end Tensor

end AxisNotation
