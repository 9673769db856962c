import AxisNotation.Tensor

/-!
# Loops over memory

What the operations on tensors do step by step. The entries of an array are read and written one at
a time, and an access that misses the array fails. Strides and the places that they give are
computed in words of 64 bits, so that products and sums that leave the range wrap around. An index
counts up like an odometer, its last coordinate fastest, until a carry runs out of its first
coordinate (`Loop.visit`).
-/

namespace AxisNotation.Loop

open Shape (wrap)

/-- The entry that was looked up, if it was there. -/
def fetch {β : Type} : Option β → Except TensorError β
  | some x => .ok x
  | none => .error .outOfBounds

/-- The array with another entry at a place that it has. -/
def store {β : Type} (xs : Array β) (place : Nat) (x : β) : Except TensorError (Array β) :=
  if place < xs.size then .ok (xs.setIfInBounds place x) else .error .outOfBounds

/-! ## Strides -/

/-- Sets the strides of the first `n` axes, the last of them first. -/
def fillStrides (shape : Shape) : Nat → Array Nat → Except TensorError (Array Nat)
  | 0, strides => .ok strides
  | n + 1, strides => do
    let stride ← fetch strides[n + 1]?
    let size ← fetch shape[n + 1]?
    fillStrides shape n (← store strides n (wrap (stride * size)))

/-- The strides of a shape. That of the last axis is one. -/
def strides (shape : Shape) : Except TensorError (Array Nat) :=
  fillStrides shape (shape.length - 1) (.replicate shape.length 1)

/-- The place that strides give an index: the sum of the products of coordinates and strides. -/
def place (index : Index) (strides : List Nat) : Nat :=
  (index.zip strides).foldl (fun sum (i, s) => wrap (sum + wrap (i * s))) 0

/-! ## Sets of axes -/

/-- Marks axes one after another. There is no result when one of them is marked already or is none
of the `rank` axes. -/
def mark (rank : Nat) (marks : Array Bool) : List Nat → Except TensorError (Option (Array Bool))
  | [] => .ok (some marks)
  | a :: axes =>
    if a < rank then do
      let marked ← fetch marks[a]?
      if marked then return none
      mark rank (← store marks a true) axes
    else .ok none

/-- Whether a list has each of `rank` axes once. -/
def isPermutation (rank : Nat) (axes : List Nat) : Except TensorError Bool :=
  if axes.length = rank then return (← mark rank (.replicate rank false) axes).isSome
  else .ok false

/-! ## The odometer -/

/-- Counts the first `n` coordinates of an index up by one. A coordinate that reaches its dimension
goes back to zero and the one before it counts up; there is no index when none is left to. -/
def carry (shape : Shape) (index : Array Nat) : Nat → Except TensorError (Option (Array Nat))
  | 0 => .ok none
  | n + 1 => do
    let coordinate ← fetch index[n]?
    let size ← fetch shape[n]?
    if coordinate + 1 < size then return some (← store index n (coordinate + 1))
    carry shape (← store index n 0) n

/-- A bound on how often the first `n` coordinates of an index can still count up: a number in
mixed radix whose digits are what is left of the dimensions. -/
def slack (shape : Shape) (index : Array Nat) : Nat → Nat
  | 0 => 0
  | n + 1 => slack shape index n * (shape.getD n 0 + 1) + (shape.getD n 0 - index.getD n 0)

/-- Coordinates that are not among the first `n` do not matter. -/
theorem slack_set (shape : Shape) (index : Array Nat) {n place : Nat} (h : n ≤ place) (x : Nat) :
    slack shape (index.setIfInBounds place x) n = slack shape index n := by
  induction n with
  | zero => rfl
  | succ n ih =>
    have other : (index.setIfInBounds place x).getD n 0 = index.getD n 0 := by
      rw [Array.getD_eq_getD_getElem?, Array.getD_eq_getD_getElem?,
        Array.getElem?_setIfInBounds_ne (by omega)]
    rw [slack, slack, ih (by omega), other]

/-- What a carry does to the last of the first `n + 1` coordinates. -/
theorem carry_succ {shape : Shape} {index : Array Nat} {n : Nat} {result : Option (Array Nat)}
    (h : carry shape index (n + 1) = .ok result) :
    ∃ i d, index[n]? = some i ∧ shape[n]? = some d ∧ if i + 1 < d
      then result = some (index.setIfInBounds n (i + 1))
      else carry shape (index.setIfInBounds n 0) n = .ok result := by
  rw [carry] at h
  cases hi : index[n]? with
  | none =>
    rw [hi] at h
    cases h
  | some i =>
    cases hd : shape[n]? with
    | none =>
      rw [hi, hd] at h
      cases h
    | some d =>
      obtain ⟨bound, -⟩ := Array.getElem?_eq_some_iff.mp hi
      have stored (x : Nat) : store index n x = .ok (index.setIfInBounds n x) := if_pos bound
      rw [hi, hd] at h
      have h : (if i + 1 < d then store index n (i + 1) >>= fun next => pure (some next)
          else store index n 0 >>= fun rest => carry shape rest n) = .ok result := h
      rw [stored, stored] at h
      refine ⟨i, d, rfl, rfl, ?_⟩
      split at h
      · next less =>
        rw [if_pos less]
        exact (Except.ok.inj h).symm
      · next most =>
        rw [if_neg most]
        exact h

/-- Counting up makes the slack smaller, whatever the index. -/
theorem slack_carry {shape : Shape} {index next : Array Nat} {n : Nat}
    (h : carry shape index n = .ok (some next)) : slack shape next n < slack shape index n := by
  induction n generalizing index with
  | zero => cases h
  | succ n ih =>
    obtain ⟨i, d, hi, hd, h⟩ := carry_succ h
    have size : shape.getD n 0 = d := by rw [List.getD_eq_getElem?_getD, hd, Option.getD_some]
    have coordinate : index.getD n 0 = i := by
      rw [Array.getD_eq_getD_getElem?, hi, Option.getD_some]
    rw [slack, slack, size, coordinate]
    split at h
    · next less =>
      obtain rfl := Option.some.inj h
      obtain ⟨bound, -⟩ := Array.getElem?_eq_some_iff.mp hi
      rw [slack_set shape index (Nat.le_refl n), Array.getD_eq_getD_getElem?,
        Array.getElem?_setIfInBounds_self_of_lt bound, Option.getD_some]
      omega
    · -- one less in the digits before outweighs any last digit
      have before := ih h
      rw [slack_set shape index (Nat.le_refl n)] at before
      have gap := Nat.mul_le_mul_right (d + 1) before
      rw [Nat.succ_mul] at gap
      omega

/-- Visits an index and those that follow it, with a state that each visit may change. -/
def visitFrom {σ : Type} (shape : Shape) (f : σ → Index → Except TensorError σ) (state : σ)
    (index : Array Nat) : Except TensorError σ := do
  let state ← f state index.toList
  match _ : carry shape index shape.length with
  | .error e => .error e
  | .ok none => return state
  | .ok (some next) => visitFrom shape f state next
termination_by slack shape index shape.length
decreasing_by exact slack_carry ‹_›

/-- Visits all indices of a shape. A shape with an empty axis has none. -/
def visit {σ : Type} (shape : Shape) (f : σ → Index → Except TensorError σ) (state : σ) :
    Except TensorError σ :=
  if 0 ∈ shape then .ok state else visitFrom shape f state (.replicate shape.length 0)

end AxisNotation.Loop
