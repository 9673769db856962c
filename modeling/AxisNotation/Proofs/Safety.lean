import AxisNotation.Plan.Rearrange
import AxisNotation.Plan.Reduce
import AxisNotation.Plan.Repeat
import AxisNotation.Proofs.Draft
import AxisNotation.Proofs.Resolution.Walk

/-!
# Patterns that have not been checked

Planning does not look outside a shape, whatever the pattern and the resolution are. Positions are
found among the axes that the shape is split into, and whether or not a permutation is recorded, the
shape that it leads to has an axis for each of them (`Draft.exists_permute`). All planners bring
axes into order in the same way (`Plan.settles_ordered`). Resolving looks up a dimension outside the
shape only if the input has more than one ellipsis (`safe_unchecked`).
-/

namespace AxisNotation

namespace Shape

variable {shape : Shape} {positions : List Nat}

lemma pick?_eq (inside : ∀ i ∈ positions, i < shape.length) :
    shape.pick? positions = some (positions.map fun i => shape.getD i 0) :=
  mapM_eq_some_map fun i hi => by
    rw [List.getElem?_eq_getElem (inside i hi), List.getD_eq_getElem _ _ (inside i hi)]

lemma exists_collapse? (inside : ∀ i ∈ positions, i < shape.length) :
    ∃ s, shape.collapse? positions = some s := by
  induction positions generalizing shape with
  | nil => exact ⟨shape, rfl⟩
  | cons i is ih =>
    obtain ⟨first, rest⟩ := List.forall_mem_cons.mp inside
    -- setting a dimension leaves as many dimensions as before
    rw [collapse?, List.foldlM_cons, if_pos first]
    exact ih fun j hj => (rest j hj).trans_eq List.length_set.symm

end Shape

namespace Axis

variable {pattern : String} {axes targets : List Axis} {positions : List Nat}

lemma settles_positions : (Axis.positions pattern axes targets).Settles :=
  Outcome.settles_mapM fun _ _ => Outcome.settles_orReject _ _

/-- Each target has one position, which is that of an axis. -/
lemma positions_inside (h : Axis.positions pattern axes targets = .ok positions) :
    positions.length = targets.length ∧ ∀ i ∈ positions, i < axes.length := by
  have found := mapM_eq_ok.mp h
  refine ⟨found.length_eq.symm, fun i hi => ?_⟩
  obtain ⟨k, hk, rfl⟩ := List.getElem_of_mem hi
  have position := (List.forall₂_iff_get.mp found).2 k (found.length_eq ▸ hk) hk
  exact (List.findIdx?_eq_some_iff_getElem.mp (Outcome.orReject_eq_ok.mp position)).1

end Axis

namespace Resolution

variable {pattern : String} {r : Resolution} {axes : List Axis} {sizes : Shape}

lemma settles_axisSizes : (r.axisSizes pattern axes).Settles :=
  Outcome.settles_mapM fun a _ => by
    cases a with
    | named n => exact Outcome.settles_orReject _ _
    | covered i => exact Outcome.settles_orReject _ _

lemma length_axisSizes (h : r.axisSizes pattern axes = .ok sizes) : sizes.length = axes.length :=
  (mapM_eq_ok.mp h).length_eq.symm

end Resolution

namespace Draft

variable {d : Draft} {positions : List Nat}

/-- A permutation of axes that the shape has leads to a shape with at least as many, even when it is
in order and so not recorded. -/
lemma exists_permute (inside : ∀ i ∈ positions, i < d.shape.length) :
    ∃ d', d.permute positions = .ok d' ∧ positions.length ≤ d'.shape.length := by
  unfold permute
  split
  · next order =>
    refine ⟨d, rfl, ?_⟩
    rw [inOrder, beq_iff_eq] at order
    -- the last of the positions from zero on is one of the shape
    refine Nat.le_of_not_lt fun short => ?_
    have last : d.shape.length ∈ positions := by
      rw [order]
      exact List.mem_range.mpr short
    exact Nat.lt_irrefl _ (inside _ last)
  · rw [Shape.pick?_eq inside]
    exact ⟨_, rfl, (List.length_map _).ge⟩

end Draft

namespace Plan

variable {p : Pattern} {shape : Shape} {r : Resolution}

/-- Bringing axes of the input into an order settles, and leads to a shape with all of them. -/
lemma settles_ordered {α : Type} {pattern : String} {input targets : List Axis}
    {f : Draft → Outcome α}
    (next : ∀ d : Draft, targets.length ≤ d.shape.length → (f d).Settles) :
    (do
      let sizes ← r.axisSizes pattern input
      let positions ← Axis.positions pattern input targets
      let draft ← ((Draft.start shape).reshape sizes).permute positions
      f draft).Settles := by
  refine Resolution.settles_axisSizes.bind fun sizes sized => ?_
  refine Axis.settles_positions.bind fun positions placed => ?_
  obtain ⟨len, inside⟩ := Axis.positions_inside placed
  obtain ⟨draft, made, covers⟩ :
      ∃ draft, ((Draft.start shape).reshape sizes).permute positions = .ok draft
        ∧ positions.length ≤ draft.shape.length := by
    refine Draft.exists_permute fun i hi => ?_
    rw [Draft.shape_reshape, Resolution.length_axisSizes sized]
    exact inside i hi
  rw [made]
  exact next draft (len ▸ covers)

lemma settles_generalSteps : (generalSteps p shape r).Settles := by
  refine settles_ordered fun draft _ => ?_
  exact nofun

lemma settles_rearrange : (Rearrange.ofPattern p shape r).Settles := by
  have steps : (rearrangeSteps p shape r).Settles := by
    unfold rearrangeSteps
    split
    · exact nofun
    · exact settles_generalSteps.bind fun _ _ => nofun
  exact steps.bind fun _ _ => nofun

lemma settles_reduce {reduction : Reduction} {keep : Bool} :
    (Reduce.ofPattern p shape r reduction keep).Settles := by
  refine settles_ordered fun draft covers => ?_
  rw [List.length_append] at covers
  dsimp only
  split
  · exact nofun
  · split
    · refine (Outcome.settles_inRange (Shape.exists_collapse? fun i hi => ?_)).bind fun _ _ => nofun
      exact (List.mem_range'_1.mp hi).2.trans_le covers
    · exact nofun

lemma settles_repeat : (Repeat.ofPattern p shape r).Settles := by
  refine Resolution.settles_axisSizes.bind fun full _ => ?_
  refine settles_ordered fun draft _ => ?_
  exact nofun

end Plan

/-- Whatever the pattern is and whatever the resolution says, each plan is made or the pattern is
rejected. Resolving as well makes no access that is undefined, if the input has one ellipsis at
most: the walk along the shape meets no trap and comes to what the solver finds. -/
theorem safe_unchecked (p : Pattern) (shape : Shape) :
    (∀ r : Resolution, (Plan.Rearrange.ofPattern p shape r).Settles
      ∧ (∀ reduction keep, (Plan.Reduce.ofPattern p shape r reduction keep).Settles)
      ∧ (Plan.Repeat.ofPattern p shape r).Settles)
    ∧ (p.input.countP Term.isEllipsis ≤ 1 → ∀ (kind : Kind) (explicit : SizeList),
      (∀ trap, Resolution.Walk.solve kind p shape explicit ≠ .error (.trapped trap))
      ∧ (Resolution.Walk.solve kind p shape explicit).outcome
        = Resolution.solve kind p shape explicit) :=
  ⟨fun _ => ⟨Plan.settles_rearrange, fun _ _ => Plan.settles_reduce, Plan.settles_repeat⟩,
    fun one kind explicit => ⟨Resolution.Walk.not_trapped one,
      Resolution.Walk.outcome_solve kind p shape explicit⟩⟩

/-- A pattern with a name twice in its input, an empty group, an ellipsis in a group beside another,
and two ellipses in its output. -/
def Pattern.unruly : Pattern :=
  .ofSides
    [.name "a" .nowhere, .group [] .nowhere,
      .group [.name "a" .nowhere, .ellipsis .nowhere] .nowhere, .ellipsis .nowhere]
    [.ellipsis .nowhere, .name "b" .nowhere, .ellipsis .nowhere]

/-- The pattern is resolved on a shape that suits it, and planned or rejected under any
resolution. -/
theorem safe_unchecked_unruly :
    (Resolution.solve .repeating .unruly [2, 1, 2, 5] [("b", 3)]).map Resolution.outputShape
        = .ok [5, 3, 5]
      ∧ (∀ trap, Resolution.Walk.solve .repeating .unruly [2, 1, 2, 5] [("b", 3)]
        ≠ .error (.trapped trap))
      ∧ ∀ r, (Plan.Repeat.ofPattern .unruly [2, 1, 2, 5] r).Settles := by
  obtain ⟨plans, resolves⟩ := safe_unchecked .unruly [2, 1, 2, 5]
  obtain ⟨safe, -⟩ := resolves (by decide) .repeating [("b", 3)]
  exact ⟨by decide +kernel, safe, fun r => (plans r).2.2⟩

/-- Of two ellipses in the input the second is cut out past the end of the shape. -/
example : Resolution.Walk.solve .reducing (.ofSides [.ellipsis .nowhere, .ellipsis .nowhere] []) [2]
    [] = .error (.trapped .slice) := by decide +kernel

end AxisNotation
