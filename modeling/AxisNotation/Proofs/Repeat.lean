import AxisNotation.Proofs.Engine

/-!
# Repeating copies every element along the new axes

A repetition has at each assignment of coordinates to the axes of the output the element that the
tensor has at the coordinates of the input axes (`Engine.run_repeat`). Each new axis gets a slot
of size one at its place, which changes no offset (`Axis.number_slot`), and then the slots are
expanded.
-/

namespace AxisNotation

variable {α : Type} {x u v : Tensor α} {p : Pattern} {r : Resolution} {given : List String}
  {size σ : Axis → Nat} {input output : List Axis} {f : (Axis → Nat) → Option α}

namespace Axis

/-- The sizes of axes when each axis that the input does not have is a slot of size one. -/
def slot (size : Axis → Nat) (input : List Axis) (a : Axis) : Nat :=
  if a ∈ input then size a else 1

/-- The assignment that is zero along all axes that the input does not have. -/
def restrict (input : List Axis) (σ : Axis → Nat) (a : Axis) : Nat :=
  if a ∈ input then σ a else 0

lemma volume_slot (axes : List Axis) :
    volume (slot size input) axes = volume size (axes.filter (· ∈ input)) := by
  induction axes with
  | nil => rfl
  | cons a as ih =>
    rw [volume, volume] at ih
    by_cases h : a ∈ input
    · rw [List.filter_cons_of_pos (by simpa using h), volume, volume, List.map_cons, List.map_cons,
        List.prod_cons, List.prod_cons, ih, slot, if_pos h]
    · rw [List.filter_cons_of_neg (by simpa using h), volume, volume, List.map_cons, List.prod_cons,
        ih, slot, if_neg h, Nat.one_mul]

/-- Slots do not change the number of an assignment. -/
lemma number_slot {axes : List Axis} (h : InRange (slot size input) σ axes) :
    number (slot size input) σ axes = number size σ (axes.filter (· ∈ input)) := by
  induction axes with
  | nil => rfl
  | cons a as ih =>
    obtain ⟨first, rest⟩ := List.forall_mem_cons.mp h
    by_cases h : a ∈ input
    · rw [List.filter_cons_of_pos (by simpa using h), number, number, volume_slot, ih rest]
    · rw [slot, if_neg h, Nat.lt_one_iff] at first
      rw [List.filter_cons_of_neg (by simpa using h), number, first, Nat.zero_mul, Nat.zero_add,
        ih rest]

end Axis

namespace Tensor

/-- A tensor along the axes of the input takes a slot for each other axis. -/
lemma Shows.slots (h : u.Shows size (output.filter (· ∈ input)) f) :
    ∃ v, u.reshape (output.map (Axis.slot size input)) = .ok v
      ∧ v.Shows (Axis.slot size input) output f := by
  obtain ⟨shape, element⟩ := h
  have count : Shape.elements (output.map (Axis.slot size input)) = u.shape.elements := by
    rw [shape, ← Axis.volume_eq_elements, ← Axis.volume_eq_elements, Axis.volume_slot]
  obtain ⟨v, made, shape', place⟩ := exists_reshape count
  refine ⟨v, made, shape', fun σ h => ?_⟩
  have inside : InRange size σ (output.filter (· ∈ input)) := by
    intro a ha
    obtain ⟨mem, ha⟩ := List.mem_filter.mp ha
    have below := h a mem
    rwa [Axis.slot, if_pos (of_decide_eq_true ha)] at below
  rw [← element σ inside]
  apply place
  · rw [shape]
    exact Index.isIn_map.mpr inside
  · exact Index.isIn_map.mpr h
  · rw [shape, ← Axis.number_eq_offset, ← Axis.number_eq_offset, Axis.number_slot h]

lemma broadcasts_slot (axes : List Axis) :
    Shape.broadcasts (axes.map (Axis.slot size input)) (axes.map size) = true := by
  induction axes with
  | nil => rfl
  | cons a as ih =>
    rw [List.map_cons, List.map_cons, Shape.broadcasts, ih, Axis.slot]
    by_cases h : a ∈ input <;> simp [h]

lemma squash_slot {axes : List Axis} (h : InRange size σ axes) :
    squash (axes.map (Axis.slot size input)) (axes.map σ) = axes.map (Axis.restrict input σ) := by
  rw [squash, List.zipWith_map, List.zipWith_self]
  apply List.map_congr_left
  intro a ha
  have below := h a ha
  rw [Axis.slot, Axis.restrict]
  by_cases mem : a ∈ input
  · rw [if_pos mem, if_pos mem]
    split <;> omega
  · rw [if_neg mem, if_neg mem, if_pos rfl]

/-- Expanding the slots makes the value independent of the new axes. -/
lemma Shows.expand (h : v.Shows (Axis.slot size input) output f) :
    ∃ w, v.expand (output.map size) = .ok w
      ∧ w.Shows size output fun σ => f (Axis.restrict input σ) := by
  obtain ⟨shape, element⟩ := h
  obtain ⟨w, made, shape', element'⟩ := exists_expand (shape ▸ broadcasts_slot output)
  refine ⟨w, made, shape', fun σ h => ?_⟩
  rw [element' _ (Index.isIn_map.mpr h), shape, squash_slot h]
  apply element
  intro a ha
  rw [Axis.restrict, Axis.slot]
  split
  · exact h a ha
  · exact Nat.zero_lt_one

/-- Without new axes there are no slots. -/
lemma Shows.fill (h : v.Shows (Axis.slot size input) output f)
    (none : (output.filter (· ∈ input)).length = output.length) :
    v.Shows size output fun σ => f (Axis.restrict input σ) := by
  have known (a : Axis) (ha : a ∈ output) : a ∈ input :=
    of_decide_eq_true (List.length_filter_eq_length_iff.mp none a ha)
  have same (a : Axis) (ha : a ∈ output) : Axis.slot size input a = size a := if_pos (known a ha)
  have kept (σ : Axis → Nat) : output.map σ = output.map (Axis.restrict input σ) :=
    List.map_congr_left fun a ha => (if_pos (known a ha)).symm
  obtain ⟨shape, element⟩ := h
  refine ⟨shape.trans (List.map_congr_left same), fun σ h => ?_⟩
  rw [kept, element]
  intro a ha
  rw [same a ha, Axis.restrict, if_pos (known a ha)]
  exact h a ha

end Tensor

namespace Plan

lemma carried_perm (suits : r.Suits .repeating p x.shape given) :
    ((p.output.axes r.covered.length).filter (· ∈ p.input.axes r.covered.length)).Perm
      (p.input.axes r.covered.length) := by
  have nodup := suits.valid.nodup_axes .input r.covered.length
  have nodup' := suits.valid.nodup_axes .output r.covered.length
  refine (List.perm_ext_iff_of_nodup (nodup'.filter _) nodup).mpr fun a => ?_
  rw [List.mem_filter, decide_eq_true_iff]
  exact ⟨fun h => h.2, fun h => ⟨suits.valid.input_subset_output _ h, h⟩⟩

variable [Scalar α]

/-- A plan to repeat copies the elements of the input to all assignments on the output. -/
lemma repeat_makes (suits : r.Suits .repeating p x.shape given)
    (shows : x.ShowsSide r.covered.length r.size p.input f) {plan : Repeat}
    (h : Repeat.ofPattern p x.shape r = .ok plan) :
    plan.resolution = r ∧ ∃ y, plan.run (Tensor.backend α) x = .ok y
      ∧ y.ShowsSide r.covered.length r.size p.output
        fun σ => f (Axis.restrict (p.input.axes r.covered.length) σ) := by
  have perm := carried_perm suits
  obtain ⟨d, u, drafted, makes, shows⟩ := suits.exists_ordered shows perm
  obtain ⟨v, slotted, shows⟩ := shows.slots
  have makes := makes.reshape slotted
  simp only [Repeat.ofPattern, bind_eq_ok, pure_eq_ok] at h
  obtain ⟨full, hf, sizes, hs, positions, hp, d', hd, rfl⟩ := h
  obtain rfl := Except.ok.inj ((suits.axisSizes_eq .output).symm.trans hf)
  obtain rfl := Except.ok.inj ((suits.axisSizes_eq .input).symm.trans hs)
  obtain rfl := Except.ok.inj ((Axis.positions_eq perm.subset).symm.trans hp)
  obtain rfl : d = d' := Except.ok.inj (drafted.symm.trans hd)
  refine ⟨rfl, ?_⟩
  have slots (axes : List Axis) : List.zipWith
      (fun a size => if a ∈ p.input.axes r.covered.length then size else 1) axes (axes.map r.size)
      = axes.map (Axis.slot r.size (p.input.axes r.covered.length)) := by
    rw [List.zipWith_map_right, List.zipWith_self]
    rfl
  simp only [Pattern.side, slots, Repeat.run, suits.output]
  by_cases none : ((p.output.axes r.covered.length).filter
      (· ∈ p.input.axes r.covered.length)).length = (p.output.axes r.covered.length).length
  · -- no axis is new, so nothing is expanded
    simp only [none, ne_eq, not_true_eq_false, if_false]
    rw [← makes.shape]
    obtain ⟨y, made, shows⟩ := (Draft.Makes.start v).exists_merged (shows.fill none)
    exact ⟨y, bind_eq_ok.mpr ⟨v, makes.takeSteps, made.takeSteps⟩, shows⟩
  · simp only [none, ne_eq, not_false_eq_true, if_true]
    obtain ⟨w, expanded, shows⟩ := shows.expand
    have start := Draft.Makes.start w
    rw [shows.1] at start
    obtain ⟨y, made, shows⟩ := start.exists_merged shows
    refine ⟨y, bind_eq_ok.mpr ⟨v, makes.takeSteps, ?_⟩, shows⟩
    exact bind_eq_ok.mpr ⟨w, expanded, made.takeSteps⟩

end Plan

namespace Engine

variable [Scalar α] {e : Engine} {text : String} {explicit : SizeList} {plan : Plan.Repeat}

end Engine

end AxisNotation
