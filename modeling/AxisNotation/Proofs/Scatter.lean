import AxisNotation.Proofs.Loop
import AxisNotation.Tensor.Buffer

/-!
# Reducing in one pass

A reduction reads the elements once, in storage order, and adds each to the slot of its index. The
slot is found by strides that are zero along the reduced axes, and in the order of the pass the
indices of one slot are those of its line (`Shape.filter_slot`). The pass finds every entry
(`Slots.pass`), and each slot takes its own elements one after another (`Slots.foldl_deposit`),
which comes to their combination (`Reduction.finish_eq`).
-/

namespace AxisNotation

/-! ## Slots -/

namespace Shape

/-- The shape with size one at each axis that is marked. -/
def unmarked (shape : Shape) (marks : List Bool) : Shape :=
  List.zipWith (fun d r => if r then 1 else d) shape marks

/-- The shape with size one at each axis that is not marked. -/
def marked (shape : Shape) (marks : List Bool) : Shape :=
  List.zipWith (fun d r => if r then d else 1) shape marks

/-- The strides that find the slot of an index. Coordinates along marked axes do not matter. -/
def slotStrides (shape : Shape) (marks : List Bool) : List Nat :=
  List.zipWith (fun w r => if r then 0 else w) (shape.unmarked marks).strides marks

variable {shape : Shape} {marks : List Bool} {i : Index}

lemma slot_cons_marked (k d : Nat) (i : Index) (shape : Shape) (marks : List Bool) :
    Index.offset (k :: i) (slotStrides (d :: shape) (true :: marks))
      = i.offset (shape.slotStrides marks) := by
  show k * 0 + i.offset (shape.slotStrides marks) = _
  rw [Nat.mul_zero, Nat.zero_add]

/-- Every index has a slot. -/
lemma slot_lt (len : marks.length = shape.length) (hi : i.isIn shape = true) :
    i.offset (shape.slotStrides marks) < (shape.unmarked marks).elements := by
  induction shape generalizing marks i with
  | nil =>
    obtain rfl := List.length_eq_zero_iff.mp (Index.length_of_isIn hi)
    obtain rfl := List.length_eq_zero_iff.mp len
    exact Nat.one_pos
  | cons d ds ih =>
    cases marks with
    | nil => cases len
    | cons r rs =>
      cases i with
      | nil => cases hi
      | cons k ks =>
        simp only [Index.isIn, Bool.and_eq_true, decide_eq_true_eq] at hi
        have rest : Index.offset ks (slotStrides ds rs) < elements (unmarked ds rs) :=
          ih (Nat.succ.inj len) hi.2
        cases r with
        | true =>
          show _ < 1 * elements (unmarked ds rs)
          rwa [slot_cons_marked, Nat.one_mul]
        | false => exact Index.digits_lt hi.1 rest

lemma flatMap_range_ite {β : Type} {c d : Nat} (h : c < d) (xs : List β) :
    ((List.range d).flatMap fun i => if i = c then xs else []) = xs := by
  induction d with
  | zero => exact absurd h (Nat.not_lt_zero c)
  | succ d ih =>
    rw [List.range_succ, List.flatMap_append, List.flatMap_singleton]
    by_cases e : c = d
    · subst e
      have before : ((List.range c).flatMap fun i => if i = c then xs else []) = [] := by
        rw [List.flatMap_eq_nil_iff]
        intro i hi
        rw [if_neg (Nat.ne_of_lt (List.mem_range.mp hi))]
      rw [before, if_pos rfl, List.nil_append]
    · rw [ih (by omega), if_neg (Ne.symm e), List.append_nil]

section Slot

variable {ds : Shape} {rs : List Bool} {ks : Index} {d k : Nat}
  (rest : ((box ds).filter fun j =>
      j.offset (slotStrides ds rs) = Index.offset ks (strides (unmarked ds rs)))
    = (box (marked ds rs)).map ks.add)

include rest

/-- Along a marked axis any first coordinate will do. -/
lemma filter_slot_marked :
    ((box (d :: ds)).filter fun j => j.offset (slotStrides (d :: ds) (true :: rs))
        = Index.offset (0 :: ks) (strides (unmarked (d :: ds) (true :: rs))))
      = (box (d :: marked ds rs)).map (Index.add (0 :: ks)) := by
  have same (c : Nat) (j : Index) :
      Index.offset (c :: j) (slotStrides (d :: ds) (true :: rs))
          = Index.offset (0 :: ks) (strides (unmarked (d :: ds) (true :: rs)))
        ↔ j.offset (slotStrides ds rs) = Index.offset ks (strides (unmarked ds rs)) := by
    show _ = 0 * _ + Index.offset ks (strides (unmarked ds rs)) ↔ _
    rw [slot_cons_marked, Nat.zero_mul, Nat.zero_add]
  rw [box, List.filter_flatMap, box, List.map_flatMap]
  refine List.flatMap_congr fun c _ => ?_
  rw [List.filter_map, List.map_map]
  simp only [Function.comp_def, same, rest, List.map_map]
  refine List.map_congr_left fun j _ => ?_
  show c :: Index.add ks j = (0 + c) :: Index.add ks j
  rw [Nat.zero_add]

/-- Along another axis the first coordinate is that of the index, since what follows is less than
one of it. -/
lemma filter_slot_unmarked (len : rs.length = ds.length) (hk : k < d)
    (hi : ks.isIn (unmarked ds rs) = true) :
    ((box (d :: ds)).filter fun j => j.offset (slotStrides (d :: ds) (false :: rs))
        = Index.offset (k :: ks) (strides (unmarked (d :: ds) (false :: rs))))
      = (box (1 :: marked ds rs)).map (Index.add (k :: ks)) := by
  have same (c : Nat) : ∀ j ∈ box ds,
      decide (Index.offset (c :: j) (slotStrides (d :: ds) (false :: rs))
          = Index.offset (k :: ks) (strides (unmarked (d :: ds) (false :: rs))))
        = decide (c = k
            ∧ j.offset (slotStrides ds rs) = Index.offset ks (strides (unmarked ds rs))) :=
    fun j hj => decide_eq_decide.mpr
      (Index.digits_inj (slot_lt len (mem_box.mp hj)) (Index.offset_lt hi))
  rw [box, List.filter_flatMap, box, List.range_one, List.flatMap_singleton, List.map_map,
    ← flatMap_range_ite hk ((box (marked ds rs)).map _)]
  refine List.flatMap_congr fun c _ => ?_
  rw [List.filter_map]
  simp only [Function.comp_def]
  rw [List.filter_congr (same c)]
  split
  · next e =>
    subst e
    simp only [true_and, rest, List.map_map]
    rfl
  · next e => simp [e]

end Slot

/-- In row-major order, the indices that have the slot of an index of the unmarked axes are its
sums with the indices of the marked axes. -/
theorem filter_slot (len : marks.length = shape.length)
    (hi : i.isIn (shape.unmarked marks) = true) :
    ((box shape).filter fun j =>
        j.offset (shape.slotStrides marks) = i.offset (shape.unmarked marks).strides)
      = (box (shape.marked marks)).map i.add := by
  induction shape generalizing marks i with
  | nil =>
    obtain rfl := List.length_eq_zero_iff.mp len
    obtain rfl := List.length_eq_zero_iff.mp (Index.length_of_isIn hi)
    rfl
  | cons d ds ih =>
    cases marks with
    | nil => cases len
    | cons r rs =>
      cases i with
      | nil => cases hi
      | cons k ks =>
        simp only [unmarked, List.zipWith_cons_cons, Index.isIn, Bool.and_eq_true,
          decide_eq_true_eq] at hi
        replace len := Nat.succ.inj len
        have rest := ih len hi.2
        cases r with
        | true =>
          obtain rfl : k = 0 := Nat.lt_one_iff.mp hi.1
          exact filter_slot_marked rest
        | false => exact filter_slot_unmarked rest len hi.1 hi.2

end Shape

/-! ## The pass -/

namespace Reduction

variable {α : Type} [Scalar α]

/-- What a slot holds and whether it has had an element, after another element. -/
def take (reduction : Reduction) (slot : α × Bool) (x : α) : α × Bool :=
  (reduction.feed slot.2 slot.1 x, true)

/-- Once a slot has had an element, it is fed by one operation. -/
lemma foldl_take {reduction : Reduction} {f : α → α → α}
    (same : ∀ held x, reduction.feed true held x = f held x) (xs : List α) (held : α) :
    (xs.foldl reduction.take (held, true)).1 = xs.foldl f held := by
  induction xs generalizing held with
  | nil => rfl
  | cons x xs ih =>
    rw [List.foldl_cons, List.foldl_cons, ← same]
    exact ih _

/-- The combination of some elements is what a slot ends with that takes them one after another. -/
theorem finish_eq {reduction : Reduction} {line : List α} {x : α}
    (h : reduction.combine? line = some x) :
    reduction.finish line.length (line.foldl reduction.take (reduction.start, false)).1 = x := by
  cases line with
  | nil =>
    cases reduction with
    | max => cases h
    | min => cases h
    | sum => exact Option.some.inj h
    | mean => exact Option.some.inj h
    | prod => exact Option.some.inj h
  | cons y ys =>
    rw [List.foldl_cons]
    cases reduction with
    | sum => exact (foldl_take (fun _ _ => rfl) ys _).trans (Option.some.inj h)
    | mean =>
      refine Eq.trans ?_ (Option.some.inj h)
      exact congrArg (Scalar.div · _) (foldl_take (fun _ _ => rfl) ys _)
    | prod => exact (foldl_take (fun _ _ => rfl) ys _).trans (Option.some.inj h)
    | max => exact (foldl_take (fun _ _ => rfl) ys _).trans (Option.some.inj h)
    | min => exact (foldl_take (fun _ _ => rfl) ys _).trans (Option.some.inj h)

end Reduction

namespace Loop

variable {β : Type} {size : Nat} {f : Nat → β} {k : Nat}

lemma fetch_ofFn (hk : k < size) : fetch (Array.ofFn fun k : Fin size => f k)[k]? = .ok (f k) := by
  rw [Array.getElem?_eq_getElem (by rwa [Array.size_ofFn]), Array.getElem_ofFn]
  rfl

lemma store_ofFn {g : Nat → β} {x : β} (hk : k < size)
    (updated : ∀ l, g l = if l = k then x else f l) :
    store (.ofFn fun l : Fin size => f l) k x = .ok (.ofFn fun l : Fin size => g l) := by
  rw [store_eq (by rwa [Array.size_ofFn])]
  refine congrArg Except.ok (Array.ext (by simp) fun l hl hl' => ?_)
  rw [Array.getElem_setIfInBounds (by simpa using hl), Array.getElem_ofFn, Array.getElem_ofFn,
    updated]
  simp only [eq_comm]

end Loop

open Loop

namespace Slots

variable {α : Type} [Scalar α]

/-- Slots whose contents are given by a function. -/
def ofFn (linear size : Nat) (contents : Nat → α × Bool) : Slots α :=
  ⟨linear, .ofFn fun k : Fin size => (contents k).1, .ofFn fun k : Fin size => (contents k).2⟩

/-- The contents of slots after one of them has taken an element. -/
def deposit (reduction : Reduction) (contents : Nat → α × Bool) (slot : Nat) (x : α) :
    Nat → α × Bool :=
  Function.update contents slot (reduction.take (contents slot) x)

variable {reduction : Reduction} {data : Array α} {strides : List Nat} {n size : Nat}
  {contents : Nat → α × Bool}

lemma empty_eq : empty reduction size = ofFn 0 size fun _ => ((reduction.start : α), false) := by
  have constant {β : Type} (x : β) : Array.replicate size x = .ofFn fun _ : Fin size => x :=
    Array.ext (by simp) fun k _ _ => by rw [Array.getElem_replicate, Array.getElem_ofFn]
  rw [empty, ofFn, constant, constant]

/-- One step of the pass reads the next element and puts it into its slot. -/
lemma add_ofFn {i : Index} {x : α} (found : data[n]? = some x) (slot : place i strides < size) :
    add data strides reduction (ofFn n size contents) i
      = .ok (ofFn (n + 1) size (deposit reduction contents (place i strides) x)) := by
  have contents' (l : Nat) : deposit reduction contents (place i strides) x l
      = if l = place i strides then reduction.take (contents (place i strides)) x
        else contents l :=
    Function.update_apply _ _ _ _
  have held := fetch_ofFn (f := fun k => (contents k).1) slot
  have seen := fetch_ofFn (f := fun k => (contents k).2) slot
  have fed := store_ofFn (f := fun k => (contents k).1) slot fun l =>
    (congrArg Prod.fst (contents' l)).trans (apply_ite Prod.fst _ _ _)
  have marked := store_ofFn (f := fun k => (contents k).2) slot fun l =>
    (congrArg Prod.snd (contents' l)).trans (apply_ite Prod.snd _ _ _)
  exact bind_eq_ok.mpr ⟨x, fetch_eq_ok.mpr found, bind_eq_ok.mpr ⟨_, held,
    bind_eq_ok.mpr ⟨_, seen, bind_eq_ok.mpr ⟨_, fed, bind_eq_ok.mpr ⟨_, marked, rfl⟩⟩⟩⟩⟩

/-- The pass over some indices, when what is left of the data are their elements. -/
theorem pass {g : Index → α} {is : List Index} (left : data.toList.drop n = is.map g)
    (slots : ∀ i ∈ is, place i strides < size) :
    is.foldlM (add data strides reduction) (ofFn n size contents)
      = .ok (ofFn (n + is.length) size
          (is.foldl (fun c i => deposit reduction c (place i strides) (g i)) contents)) := by
  induction is generalizing n contents with
  | nil => rfl
  | cons i is ih =>
    obtain ⟨slot, slots⟩ := List.forall_mem_cons.mp slots
    have found : data[n]? = some (g i) := by
      rw [← Array.getElem?_toList, ← Nat.add_zero n, ← List.getElem?_drop, left]
      rfl
    have left : data.toList.drop (n + 1) = is.map g := by
      rw [← List.drop_drop, left]
      rfl
    rw [List.foldlM_cons, add_ofFn found slot]
    show is.foldlM _ _ = _
    rw [ih left slots, List.length_cons, Nat.add_assoc, Nat.add_comm 1]
    rfl

/-- A slot takes the elements of its own indices, in the order of the pass. -/
theorem foldl_deposit (slot : Index → Nat) (g : Index → α) (is : List Index) (k : Nat) :
    is.foldl (fun c i => deposit reduction c (slot i) (g i)) contents k
      = ((is.filter fun i => slot i = k).map g).foldl reduction.take (contents k) := by
  induction is generalizing contents with
  | nil => rfl
  | cons i is ih =>
    rw [List.foldl_cons, ih, deposit]
    by_cases e : slot i = k
    · subst e
      rw [List.filter_cons_of_pos (by simp), Function.update_self]
      rfl
    · rw [List.filter_cons_of_neg (by simpa using e), Function.update_of_ne (Ne.symm e)]

end Slots

end AxisNotation
