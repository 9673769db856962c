import AxisNotation.Proofs.Engine
import AxisNotation.Proofs.Reduction

/-!
# Reducing combines the axes that the output does not have

A reduction has at each assignment of coordinates to the axes of the output the combination of the
elements at all assignments to the other axes, in lexicographic order (`Engine.run_reduce`). It
fails only when it would have to find the greatest or the least of no elements.
-/

namespace AxisNotation

variable {α : Type} {x u v : Tensor α} {p : Pattern} {r : Resolution} {given : List String}
  {width : Nat} {size κ : Axis → Nat} {kept reduced : List Axis} {f : (Axis → Nat) → Option α}

namespace Axis

/-- The assignment that takes some axes from a list of coordinates, and the others from another
assignment. -/
def assign (axes : List Axis) (ρ : Index) (κ : Axis → Nat) (a : Axis) : Nat :=
  if a ∈ axes then ρ.getD (axes.idxOf a) 0 else κ a

lemma map_assign {axes : List Axis} (nodup : axes.Nodup) {ρ : Index}
    (len : ρ.length = axes.length) (κ : Axis → Nat) : axes.map (assign axes ρ κ) = ρ := by
  apply List.ext_getElem
  · rw [List.length_map, len]
  · intro k hk hρ
    rw [List.length_map] at hk
    rw [List.getElem_map, assign, if_pos (List.getElem_mem hk), nodup.idxOf_getElem,
      List.getD_eq_getElem ρ 0 hρ]

lemma map_assign_of_disjoint {axes others : List Axis} (disjoint : ∀ a ∈ others, a ∉ axes)
    (ρ : Index) (κ : Axis → Nat) : others.map (assign axes ρ κ) = others.map κ :=
  List.map_congr_left fun a ha => if_neg (disjoint a ha)

end Axis

/-- Assignments to the kept axes and coordinates of the others make an assignment to all. -/
lemma InRange.assign {ρ : Index} (h : InRange size κ kept) (nodup : (kept ++ reduced).Nodup)
    (hρ : ρ ∈ Shape.box (reduced.map size)) :
    InRange size (Axis.assign reduced ρ κ) (kept ++ reduced)
      ∧ (kept ++ reduced).map (Axis.assign reduced ρ κ) = kept.map κ ++ ρ := by
  obtain ⟨-, nodup, disjoint⟩ := List.nodup_append.mp nodup
  have disjoint (a : Axis) (ha : a ∈ kept) : a ∉ reduced := fun ha' => disjoint a ha a ha' rfl
  have inside := Shape.mem_box.mp hρ
  have last := Axis.map_assign nodup ((Index.length_of_isIn inside).trans (List.length_map _)) κ
  refine ⟨?_, by rw [List.map_append, last, Axis.map_assign_of_disjoint disjoint]⟩
  refine List.forall_mem_append.mpr ⟨fun a ha => ?_, Index.isIn_map.mp (last.symm ▸ inside)⟩
  rw [Axis.assign, if_neg (disjoint a ha)]
  exact h a ha

lemma Shape.collapse?_last (ks rs : Shape) :
    Shape.collapse? (ks ++ rs) (List.range' ks.length rs.length)
      = some (ks ++ rs.map fun _ => 1) := by
  induction rs generalizing ks with
  | nil => rfl
  | cons r rs ih =>
    have rest := ih (ks ++ [1])
    rw [List.length_append, List.append_assoc, List.append_assoc] at rest
    have bound : ks.length < (ks ++ r :: rs).length := by simp
    rw [List.length_cons, List.range'_succ, collapse?, List.foldlM_cons, if_pos bound]
    simp only [Option.bind_eq_bind, Option.bind_some, List.set_append_right _ _ (Nat.le_refl _),
      Nat.sub_self, List.set_cons_zero]
    exact rest

namespace Reduction

variable {reduction : Reduction}

/-- A reduction would have to find the greatest or the least of no elements. -/
def LacksElement (reduction : Reduction) (size : Axis → Nat) (kept reduced : List Axis) : Prop :=
  (reduction = .max ∨ reduction = .min) ∧ reduced ≠ [] ∧ (∃ a ∈ reduced, size a = 0)
    ∧ ∀ a ∈ kept, size a ≠ 0

lemma needsElement_iff : reduction.needsElement = true ↔ reduction = .max ∨ reduction = .min := by
  cases reduction <;> simp [needsElement]

lemma lacksElement_iff : reduction.LacksElement size kept reduced ↔ reduction.needsElement = true
    ∧ Shape.elements (reduced.map size) = 0 ∧ Shape.elements (kept.map size) ≠ 0 := by
  have nonempty : reduced ≠ [] ∧ (∃ a ∈ reduced, size a = 0) ↔ ∃ a ∈ reduced, size a = 0 :=
    and_iff_right_of_imp fun h => h.elim fun _ h => List.ne_nil_of_mem h.1
  rw [LacksElement, ← and_assoc (a := reduced ≠ []), nonempty, needsElement_iff]
  simp [Shape.elements_eq_zero]

end Reduction

namespace Tensor

/-- Merging the first axes into a side leaves axes of size one behind them as they are. -/
lemma exists_merged_units {ts : Terms} (units : Shape)
    (shape : v.shape = (ts.axes width).map size ++ units.map fun _ => 1) :
    ∃ y, v.reshape (ts.extents width size ++ units.map fun _ => 1) = .ok y
      ∧ ∀ κ, InRange size κ (ts.axes width) →
        y.get? (ts.coordinates width size κ ++ units.map fun _ => 0)
          = v.get? ((ts.axes width).map κ ++ units.map fun _ => 0) := by
  have count : Shape.elements (ts.extents width size ++ units.map fun _ => 1)
      = v.shape.elements := by
    rw [shape, Shape.elements_append, Shape.elements_append, Terms.elements_extents,
      Axis.volume_eq_elements]
  obtain ⟨y, made, -, place⟩ := exists_reshape count
  refine ⟨y, made, fun κ h => place _ _ ?_ ?_ ?_⟩
  · rw [shape]
    exact Index.isIn_append (Index.isIn_map.mpr h) (Index.isIn_zeros units)
  · exact Index.isIn_append (Terms.isIn_coordinates h) (Index.isIn_zeros units)
  · have inside := Terms.isIn_coordinates h
    rw [shape, Index.offset_append (Index.length_of_isIn inside),
      Index.offset_append (by rw [List.length_map, List.length_map]), Terms.offset_coordinates,
      Axis.number_eq_offset, Index.offset_zeros]

variable [Scalar α] {reduction : Reduction}

/-- Reducing the last of the labelled axes combines the elements at all assignments to them. -/
lemma Shows.reduce (h : u.Shows size (kept ++ reduced) f) (nodup : (kept ++ reduced).Nodup)
    (keep : Bool) (present : ¬ reduction.LacksElement size kept reduced) :
    ∃ v, u.reduce (List.range' kept.length reduced.length) reduction keep = .ok v
      ∧ v.shape = kept.map size ++ (if keep then (reduced.map size).map fun _ => 1 else [])
      ∧ ∀ κ, InRange size κ kept → ∃ line a,
        (Shape.box (reduced.map size)).mapM (fun ρ => f (Axis.assign reduced ρ κ)) = some line
          ∧ reduction.combine? line = some a
          ∧ v.get? (kept.map κ ++ if keep then (reduced.map size).map fun _ => 0 else [])
            = some a := by
  obtain ⟨shape, element⟩ := h
  rw [List.map_append] at shape
  rw [Reduction.lacksElement_iff] at present
  obtain ⟨v, made, shape', combined⟩ := exists_reduce_last keep shape present
  rw [List.length_map, List.length_map] at made
  refine ⟨v, made, shape', fun κ h => ?_⟩
  obtain ⟨line, a, found, value⟩ := combined _ (Index.isIn_map.mpr h)
  refine ⟨line, a, ?_, value⟩
  rw [← found]
  apply mapM_congr
  intro ρ hρ
  obtain ⟨inside, index⟩ := h.assign nodup hρ
  rw [← element _ inside, index]

lemma Shows.reduce_of_lacksElement (h : u.Shows size (kept ++ reduced) f) (keep : Bool)
    (lacks : reduction.LacksElement size kept reduced) :
    u.reduce (List.range' kept.length reduced.length) reduction keep
      = .error (.emptyReduction reduction) := by
  have shape := h.1
  rw [List.map_append] at shape
  rw [Reduction.lacksElement_iff, ← lacksElement_last, ← shape, List.length_map,
    List.length_map] at lacks
  refine Tensor.reduce_of_lacksElement keep List.nodup_range' (fun a ha => ?_) lacks
  rw [List.mem_range'_1] at ha
  rw [rank, shape, List.length_append, List.length_map, List.length_map]
  exact ha.2

end Tensor

namespace Plan

variable {reduction : Reduction} {keep : Bool} {plan : Reduce} {d : Draft}

lemma ordered_perm (suits : r.Suits .reducing p x.shape given) :
    (p.output.axes r.covered.length ++ (p.input.axes r.covered.length).filter
      (· ∉ p.output.axes r.covered.length)).Perm (p.input.axes r.covered.length) := by
  have nodup := suits.valid.nodup_axes .input r.covered.length
  have nodup' := suits.valid.nodup_axes .output r.covered.length
  refine (List.perm_ext_iff_of_nodup ?_ nodup).mpr fun a => ?_
  · refine List.nodup_append.mpr ⟨nodup', nodup.filter _, ?_⟩
    rintro a ha b hb rfl
    exact of_decide_eq_true (List.mem_filter.mp hb).2 ha
  · rw [List.mem_append, List.mem_filter, decide_eq_true_iff]
    refine ⟨fun h => h.elim (fun h => suits.valid.output_subset_input _ h) And.left, fun h => ?_⟩
    exact (Classical.em _).imp_right fun h' => ⟨h, h'⟩

/-- The plan to reduce, once the axes are in order. -/
lemma reduce_eq (suits : r.Suits .reducing p x.shape given)
    (kept_eq : p.output.axes r.covered.length = kept)
    (reduced_eq : (p.input.axes r.covered.length).filter (· ∉ kept) = reduced)
    (perm : (kept ++ reduced).Perm (p.input.axes r.covered.length))
    (drafted : ((Draft.start x.shape).reshape ((p.input.axes r.covered.length).map r.size)).permute
        ((kept ++ reduced).map ((p.input.axes r.covered.length).idxOf ·)) = .ok d)
    (shape : d.shape = (kept ++ reduced).map r.size) :
    Reduce.ofPattern p x.shape r reduction keep = .ok {
      resolution := r
      before := d.steps
      axes := List.range' kept.length reduced.length
      reduction
      keep
      after := ((Draft.start (kept.map r.size
          ++ if keep then (reduced.map r.size).map fun _ => 1 else [])).reshape
        (r.outputShape ++ if keep then (reduced.map r.size).map fun _ => 1 else [])).steps
      outputShape := r.outputShape
        ++ if keep then (reduced.map r.size).map fun _ => 1 else [] } := by
  have ok_bind {β γ : Type} (b : β) (g : β → Outcome γ) : (Except.ok b >>= g) = g b := rfl
  have units : (List.range' kept.length reduced.length).map (fun _ => 1)
      = (reduced.map r.size).map fun _ => 1 := by
    rw [List.map_const', List.map_const', List.length_range', List.length_map]
  have collapsed := Shape.collapse?_last (kept.map r.size) (reduced.map r.size)
  rw [List.length_map, List.length_map, ← List.map_append, ← shape] at collapsed
  have taken : d.shape.take kept.length = kept.map r.size := by
    rw [shape, List.map_append, List.take_left' (List.length_map _)]
  have sizes : r.axisSizes p.text (p.input.axes r.covered.length)
      = .ok ((p.input.axes r.covered.length).map r.size) := suits.axisSizes_eq .input
  simp only [Reduce.ofPattern, kept_eq, reduced_eq, sizes, Axis.positions_eq perm.subset, drafted,
    ok_bind, units, taken, collapsed]
  cases reduced with
  | nil =>
    rw [List.append_nil] at shape
    cases keep <;> simp [shape] <;> rfl
  | cons a as =>
    cases keep
    · simp [List.range'_succ]; rfl
    · simp [List.range'_succ, Outcome.inRange]

variable [Scalar α]

lemma reduce_run (makes : d.Makes x u) {axes : List Nat} {after : List Step} {shape : Shape} :
    (Reduce.mk r d.steps axes reduction keep after shape).run (Tensor.backend α) x
      = (if axes.isEmpty then .ok u else u.reduce axes reduction keep)
          >>= fun v => (Tensor.backend α).takeSteps v after := by
  have ordered := makes.takeSteps
  simp only [Reduce.run, ordered, Reduce.reduces]
  cases axes <;> rfl

/-- A plan to reduce fails exactly when the reduction lacks an element. Otherwise it combines, at
each assignment to the axes that are kept, the elements at all assignments to the others. -/
lemma reduce_makes (suits : r.Suits .reducing p x.shape given)
    (shows : x.ShowsSide r.covered.length r.size p.input f)
    (h : Reduce.ofPattern p x.shape r reduction keep = .ok plan)
    (kept_eq : p.output.axes r.covered.length = kept)
    (reduced_eq : (p.input.axes r.covered.length).filter (· ∉ kept) = reduced) :
    plan.resolution = r
      ∧ (reduction.LacksElement r.size kept reduced →
        plan.run (Tensor.backend α) x = .error (.emptyReduction reduction))
      ∧ (¬ reduction.LacksElement r.size kept reduced → ∃ y, plan.run (Tensor.backend α) x = .ok y
        ∧ y.shape = r.outputShape ++ (if keep then (reduced.map r.size).map fun _ => 1 else [])
        ∧ ∀ κ, InRange r.size κ kept →
          (reduced = [] → y.get? (p.output.coordinates r.covered.length r.size κ) = f κ)
          ∧ (reduced ≠ [] → ∃ line a,
            (Shape.box (reduced.map r.size)).mapM (fun ρ => f (Axis.assign reduced ρ κ)) = some line
            ∧ reduction.combine? line = some a
            ∧ y.get? (p.output.coordinates r.covered.length r.size κ
                ++ if keep then (reduced.map r.size).map fun _ => 0 else [])
              = some a)) := by
  have perm := ordered_perm suits
  rw [kept_eq, reduced_eq] at perm
  have nodup := perm.nodup_iff.mpr (suits.valid.nodup_axes .input r.covered.length)
  obtain ⟨d, u, drafted, makes, shows⟩ := suits.exists_ordered shows perm
  rw [reduce_eq suits kept_eq reduced_eq perm drafted (makes.shape.symm.trans shows.1)] at h
  obtain rfl := Except.ok.inj h
  rw [reduce_run makes, suits.output]
  have empty : (List.range' kept.length reduced.length).isEmpty = true ↔ reduced = [] := by
    rw [List.isEmpty_iff, List.range'_eq_nil_iff, List.length_eq_zero_iff]
  refine ⟨rfl, fun lacks => ?_, fun present => ?_⟩
  · obtain ⟨a, ha, -⟩ := lacks.2.2.1
    rw [if_neg fun none => List.ne_nil_of_mem ha (empty.mp none),
      shows.reduce_of_lacksElement keep lacks]
    rfl
  · by_cases none : reduced = []
    · -- the axes of the output are all there are, and are merged at once
      subst none
      rw [List.append_nil, ← kept_eq] at shows
      have start := Draft.Makes.start u
      rw [shows.1] at start
      obtain ⟨y, made, shape, element⟩ := start.exists_merged shows
      simp only [List.map_nil, ite_self, List.append_nil, ← kept_eq]
      exact ⟨y, made.takeSteps, shape, fun κ h => ⟨fun _ => element κ h, fun h => absurd rfl h⟩⟩
    · rw [if_neg (mt empty.mp none)]
      obtain ⟨v, combined, shape, element⟩ := shows.reduce nodup keep present
      -- the units of the reduced axes, if they are kept, stand behind the merged side
      have units {β : Type} (g : Nat → β) : (if keep then (reduced.map r.size).map g else [])
          = (if keep then reduced.map r.size else []).map g := by
        cases keep <;> rfl
      rw [units, ← kept_eq] at shape
      obtain ⟨y, merged, place⟩ := Tensor.exists_merged_units _ shape
      have makes := (Draft.Makes.start v).reshape merged
      rw [shape, kept_eq, ← units] at makes
      refine ⟨y, bind_eq_ok.mpr ⟨v, combined, makes.takeSteps⟩, ?_,
        fun κ h => ⟨fun h => absurd h none, fun _ => ?_⟩⟩
      · rw [units]
        exact (Tensor.reshape_eq_ok.mp merged).1
      · obtain ⟨line, a, found, combined, value⟩ := element κ h
        refine ⟨line, a, found, combined, ?_⟩
        rw [units, ← value, units, place κ (kept_eq ▸ h), kept_eq]

end Plan

namespace Engine

variable [Scalar α] {e : Engine} {text : String} {explicit : SizeList} {reduction : Reduction}
  {keep : Bool} {plan : Plan.Reduce}

end Engine

end AxisNotation
