import AxisNotation.Proofs.Operation
import AxisNotation.Proofs.Resolution.Magnitude

/-!
# Plans do not depend on labels

A plan is made from the positions and the sizes of the axes. When the axes of two patterns
correspond to each other (`Resolution.Relabels`), the patterns have the same general steps, the same
reductions and the same repetitions. Only the shortcuts of a rearrangement look at the terms
themselves, and they do what the general steps do. So an operation gives the same tensor by either
pattern (`Operation.run_relabelled`).
-/

namespace AxisNotation

section Lists

variable {β γ : Type} {f : β → γ}

lemma idxOf?_map [DecidableEq β] [DecidableEq γ] {axes : List β} {b : β}
    (inj : ∀ a ∈ axes, f a = f b → a = b) : (axes.map f).idxOf? (f b) = axes.idxOf? b := by
  induction axes with
  | nil => rfl
  | cons a as ih =>
    obtain ⟨first, rest⟩ := List.forall_mem_cons.mp inj
    rw [List.map_cons, List.idxOf?_cons, List.idxOf?_cons, ih rest]
    by_cases e : a = b
    · rw [e, beq_self_eq_true, beq_self_eq_true]
    · rw [beq_false_of_ne e, beq_false_of_ne (mt first e)]

lemma idxOf_map [DecidableEq β] [DecidableEq γ] {axes : List β} {b : β}
    (inj : ∀ a ∈ axes, f a = f b → a = b) : (axes.map f).idxOf (f b) = axes.idxOf b := by
  rw [List.idxOf_eq_getD_idxOf?, List.idxOf_eq_getD_idxOf?, idxOf?_map inj, List.length_map]

lemma mem_map_iff {axes : List β} {b : β} (inj : ∀ a ∈ axes, f a = f b → a = b) :
    f b ∈ axes.map f ↔ b ∈ axes := by
  constructor
  · intro h
    obtain ⟨a, ha, e⟩ := List.mem_map.mp h
    exact inj a ha e ▸ ha
  · exact List.mem_map_of_mem

lemma filter_map_eq {axes : List β} {keeps : γ → Bool} {keeps' : β → Bool}
    (h : ∀ a ∈ axes, keeps (f a) = keeps' a) :
    (axes.map f).filter keeps = (axes.filter keeps').map f := by
  rw [List.filter_map]
  exact congrArg _ (List.filter_congr h)

lemma zipWith_map_eq {δ ε : Type} {xs : List β} {ys : List δ} {k : γ → δ → ε} {k' : β → δ → ε}
    (h : ∀ x ∈ xs, k (f x) = k' x) : List.zipWith k (xs.map f) ys = List.zipWith k' xs ys := by
  induction xs generalizing ys with
  | nil => rfl
  | cons x xs ih =>
    obtain ⟨first, rest⟩ := List.forall_mem_cons.mp h
    cases ys with
    | nil => rfl
    | cons y ys =>
      rw [List.map_cons, List.zipWith_cons_cons, List.zipWith_cons_cons, first, ih rest]

end Lists

/-- The axes of two patterns correspond to each other, side by side and with the same sizes. -/
structure Resolution.Relabels (f : Axis → Axis) (p : Pattern) (r : Resolution) (p' : Pattern)
    (r' : Resolution) : Prop where
  injective : ∀ side side', ∀ a ∈ r.axes (p.side side), ∀ b ∈ r.axes (p.side side'),
    f a = f b → a = b
  axes : ∀ side, r'.axes (p'.side side) = (r.axes (p.side side)).map f
  size : ∀ side, ∀ a ∈ r.axes (p.side side), r'.size (f a) = r.size a
  outputShape : r'.outputShape = r.outputShape

namespace Resolution.Relabels

variable {f : Axis → Axis} {p p' : Pattern} {r r' : Resolution}

lemma mem_iff (h : r.Relabels f p p' r') (side side' : Side) {a : Axis}
    (ha : a ∈ r.axes (p.side side)) :
    f a ∈ r'.axes (p'.side side') ↔ a ∈ r.axes (p.side side') := by
  rw [h.axes]
  exact mem_map_iff fun b hb => h.injective side' side b hb a ha

lemma map_size (h : r.Relabels f p p' r') (side : Side) {axes : List Axis}
    (sub : axes ⊆ r.axes (p.side side)) : (axes.map f).map r'.size = axes.map r.size := by
  rw [List.map_map]
  exact List.map_congr_left fun a ha => h.size side a (sub ha)

lemma map_idxOf (h : r.Relabels f p p' r') {targets : List Axis}
    (sub : targets ⊆ r.axes p.input) :
    (targets.map f).map ((r'.axes p'.input).idxOf ·) = targets.map ((r.axes p.input).idxOf ·) := by
  have input : r'.axes p'.input = (r.axes p.input).map f := h.axes .input
  rw [List.map_map, input]
  apply List.map_congr_left
  intro b hb
  exact idxOf_map fun a ha => h.injective .input .input a ha b (sub hb)

/-- Axes that correspond to each other are brought into order by the same draft. -/
lemma ordered_eq (h : r.Relabels f p p' r') (shape : Shape) {targets : List Axis}
    (sub : targets ⊆ r.axes p.input) :
    ((Draft.start shape).reshape ((r'.axes p'.input).map r'.size)).permute
        ((targets.map f).map ((r'.axes p'.input).idxOf ·))
      = ((Draft.start shape).reshape ((r.axes p.input).map r.size)).permute
        (targets.map ((r.axes p.input).idxOf ·)) := by
  have input : r'.axes p'.input = (r.axes p.input).map f := h.axes .input
  have sizes := h.map_size .input (List.Subset.refl (r.axes p.input))
  rw [h.map_idxOf sub, input, sizes]

end Resolution.Relabels

namespace Plan

variable {f : Axis → Axis} {p p' : Pattern} {r r' : Resolution} {shape : Shape}
  {given given' : List String} {d : Draft}

lemma generalSteps_relabelled (h : r.Relabels f p p' r')
    (suits : r.Suits .rearranging p shape given)
    (suits' : r'.Suits .rearranging p' shape given') :
    generalSteps p' shape r' = generalSteps p shape r := by
  have output : r'.axes p'.output = (r.axes p.output).map f := h.axes .output
  have sub : r.axes p.output ⊆ r.axes p.input := (suits.valid.perm_axes _).subset
  rw [generalSteps_eq suits, generalSteps_eq suits', output, h.ordered_eq shape sub,
    h.outputShape]

/-- The plan to repeat is the same but for the resolution that it keeps. -/
lemma repeat_relabelled (h : r.Relabels f p p' r') (suits : r.Suits .repeating p shape given)
    (suits' : r'.Suits .repeating p' shape given') :
    ∃ plan, Repeat.ofPattern p shape r = .ok plan ∧ plan.resolution = r
      ∧ Repeat.ofPattern p' shape r' = .ok { plan with resolution := r' } := by
  obtain ⟨x, rfl⟩ : ∃ x : Tensor Float, x.shape = shape := ⟨placeholder shape, rfl⟩
  have output : r'.axes p'.output = (r.axes p.output).map f := h.axes .output
  have carried : (r'.axes p'.output).filter (· ∈ r'.axes p'.input)
      = ((r.axes p.output).filter (· ∈ r.axes p.input)).map f := by
    rw [output]
    apply filter_map_eq
    intro a ha
    exact decide_eq_decide.mpr (h.mem_iff .output .input ha)
  have slotted : (r'.axes p'.output).map (Axis.slot r'.size (r'.axes p'.input))
      = (r.axes p.output).map (Axis.slot r.size (r.axes p.input)) := by
    rw [output, List.map_map]
    apply List.map_congr_left
    intro a ha
    show Axis.slot r'.size (r'.axes p'.input) (f a) = Axis.slot r.size (r.axes p.input) a
    rw [Axis.slot, Axis.slot, h.size .output a ha]
    exact if_congr (h.mem_iff .output .input ha) rfl rfl
  have full : (r'.axes p'.output).map r'.size = (r.axes p.output).map r.size := by
    rw [output]
    exact h.map_size .output (List.Subset.refl _)
  have perm := carried_perm suits
  obtain ⟨d, -, drafted, -⟩ := suits.exists_ordered suits.shows perm
  have drafted' := (h.ordered_eq x.shape perm.subset).trans drafted
  refine ⟨_, repeat_eq suits rfl drafted rfl rfl, rfl, ?_⟩
  rw [repeat_eq suits' carried drafted' slotted full, List.length_map, h.outputShape]

/-- The plan to reduce is the same but for the resolution that it keeps. -/
lemma reduce_relabelled (h : r.Relabels f p p' r') (suits : r.Suits .reducing p shape given)
    (suits' : r'.Suits .reducing p' shape given') (reduction : Reduction) (keep : Bool) :
    ∃ plan, Reduce.ofPattern p shape r reduction keep = .ok plan ∧ plan.resolution = r
      ∧ Reduce.ofPattern p' shape r' reduction keep = .ok { plan with resolution := r' } := by
  obtain ⟨x, rfl⟩ : ∃ x : Tensor Float, x.shape = shape := ⟨placeholder shape, rfl⟩
  have input : r'.axes p'.input = (r.axes p.input).map f := h.axes .input
  have output : r'.axes p'.output = (r.axes p.output).map f := h.axes .output
  have reduced : (r'.axes p'.input).filter (· ∉ (r.axes p.output).map f)
      = ((r.axes p.input).filter (· ∉ r.axes p.output)).map f := by
    rw [input, ← output]
    apply filter_map_eq
    intro a ha
    exact decide_eq_decide.mpr (not_congr (h.mem_iff .input .output ha))
  have perm : (r.axes p.output ++ (r.axes p.input).filter (· ∉ r.axes p.output)).Perm
      (r.axes p.input) := ordered_perm suits
  have perm' :
      ((r.axes p.output).map f ++ ((r.axes p.input).filter (· ∉ r.axes p.output)).map f).Perm
        (r'.axes p'.input) := by
    rw [← reduced, ← output]
    exact ordered_perm suits'
  obtain ⟨kept_sub, reduced_sub⟩ := List.append_subset.mp perm.subset
  obtain ⟨d, u, drafted, makes, shows⟩ := suits.exists_ordered suits.shows perm
  have ordered : d.shape = _ := makes.shape.symm.trans shows.1
  have drafted' := (h.ordered_eq x.shape perm.subset).trans drafted
  have ordered' := ordered.trans (h.map_size .input perm.subset).symm
  rw [List.map_append] at drafted' ordered'
  have kept : p.output.axes r.covered.length = r.axes p.output := rfl
  refine ⟨_, reduce_eq suits kept rfl perm drafted ordered, rfl, ?_⟩
  rw [reduce_eq suits' output reduced perm' drafted' ordered', List.length_map, List.length_map,
    h.map_size .input kept_sub, h.map_size .input reduced_sub, h.outputShape]
  rfl

/-- The plan to rearrange does what the general steps do. -/
lemma exists_rearrange_general {α : Type} [Scalar α] {x : Tensor α}
    (suits : r.Suits .rearranging p x.shape given) :
    ∃ plan steps y, Rearrange.ofPattern p x.shape r = .ok plan ∧ plan.resolution = r
      ∧ plan.run (Tensor.backend α) x = .ok y ∧ generalSteps p x.shape r = .ok steps
      ∧ (Tensor.backend α).takeSteps x steps = .ok y := by
  obtain ⟨plan, y, planned, resolution, ran, shows⟩ := exists_rearrange suits
  obtain ⟨steps, general⟩ := exists_generalSteps suits
  obtain ⟨z, taken, shows'⟩ := generalSteps_make suits suits.shows general
  have same : y = z := by
    apply shows.ext (suits.valid.nodup_axes .output _) shows'
    exact fun _ _ => rfl
  exact ⟨plan, steps, y, planned, resolution, ran, general, same ▸ taken⟩

end Plan

namespace Operation

/-- The shape that is planned for the result. -/
def outputShape (op : Operation) (p : Pattern) (shape : Shape) (r : Resolution) : Outcome Shape :=
  match op with
  | rearrange => (Plan.Rearrange.ofPattern p shape r).map Plan.Rearrange.outputShape
  | reduce reduction keep =>
    (Plan.Reduce.ofPattern p shape r reduction keep).map Plan.Reduce.outputShape
  | repeatAlong => (Plan.Repeat.ofPattern p shape r).map Plan.Repeat.outputShape

variable {α : Type} [Scalar α] {x : Tensor α} {f : Axis → Axis} {p p' : Pattern} {r r' : Resolution}
  {shape : Shape} {given given' : List String} {op : Operation}

/-- Patterns whose axes correspond to each other plan the same shape. -/
lemma outputShape_relabelled (h : r.Relabels f p p' r') (suits : r.Suits op.kind p shape given)
    (suits' : r'.Suits op.kind p' shape given') :
    op.outputShape p' shape r' = op.outputShape p shape r := by
  cases op with
  | rearrange =>
    obtain ⟨x, rfl⟩ : ∃ x : Tensor Float, x.shape = shape := ⟨Plan.placeholder shape, rfl⟩
    obtain ⟨plan, -, planned, rfl, -⟩ := Plan.exists_rearrange suits
    obtain ⟨plan', -, planned', rfl, -⟩ := Plan.exists_rearrange suits'
    show (Plan.Rearrange.ofPattern p' x.shape _).map _
      = (Plan.Rearrange.ofPattern p x.shape _).map _
    rw [planned, planned']
    exact congrArg Except.ok h.outputShape
  | reduce reduction keep =>
    obtain ⟨plan, planned, -, planned'⟩ := Plan.reduce_relabelled h suits suits' reduction keep
    show (Plan.Reduce.ofPattern p' shape r' reduction keep).map _
      = (Plan.Reduce.ofPattern p shape r reduction keep).map _
    rw [planned, planned']
    rfl
  | repeatAlong =>
    obtain ⟨plan, planned, rfl, planned'⟩ := Plan.repeat_relabelled h suits suits'
    show (Plan.Repeat.ofPattern p' shape r').map _ = (Plan.Repeat.ofPattern p shape _).map _
    rw [planned, planned']
    exact congrArg Except.ok h.outputShape

/-- Patterns whose axes correspond to each other give the same result. -/
theorem run_relabelled (h : r.Relabels f p p' r') (suits : r.Suits op.kind p x.shape given)
    (suits' : r'.Suits op.kind p' x.shape given') :
    op.run (Tensor.backend α) x p' r' = op.run (Tensor.backend α) x p r := by
  cases op with
  | rearrange =>
    obtain ⟨plan, steps, y, planned, -, ran, general, taken⟩ :=
      Plan.exists_rearrange_general suits
    obtain ⟨plan', steps', y', planned', -, ran', general', taken'⟩ :=
      Plan.exists_rearrange_general suits'
    -- the plans may differ, but both do what the general steps do
    rw [Plan.generalSteps_relabelled h suits suits', general] at general'
    obtain rfl := Except.ok.inj general'
    rw [taken] at taken'
    obtain rfl := Except.ok.inj taken'
    show Engine.execute (Plan.Rearrange.ofPattern p' x.shape r') _
      = Engine.execute (Plan.Rearrange.ofPattern p x.shape r) _
    rw [planned, planned', Engine.execute, Engine.execute, ran, ran']
  | reduce reduction keep =>
    obtain ⟨plan, planned, -, planned'⟩ := Plan.reduce_relabelled h suits suits' reduction keep
    show Engine.execute (Plan.Reduce.ofPattern p' x.shape r' reduction keep) _
      = Engine.execute (Plan.Reduce.ofPattern p x.shape r reduction keep) _
    rw [planned, planned']
    rfl
  | repeatAlong =>
    obtain ⟨plan, planned, -, planned'⟩ := Plan.repeat_relabelled h suits suits'
    show Engine.execute (Plan.Repeat.ofPattern p' x.shape r') _
      = Engine.execute (Plan.Repeat.ofPattern p x.shape r) _
    rw [planned, planned']
    rfl

/-- On a shape without zeros every operation has a result. -/
lemma exists_run (suits : r.Suits op.kind p x.shape given) (positive : 0 ∉ x.shape) :
    ∃ y, op.run (Tensor.backend α) x p r = .ok y := by
  cases op with
  | rearrange =>
    obtain ⟨plan, y, planned, -, ran, -⟩ := Plan.exists_rearrange suits
    exact ⟨y, Engine.execute_eq_ok.mpr ⟨plan, planned, ran⟩⟩
  | reduce reduction keep =>
    obtain ⟨plan, planned, -⟩ := Plan.exists_reduce suits reduction keep
    obtain ⟨-, -, succeeds⟩ := Plan.reduce_makes suits suits.shows planned rfl rfl
    have present : ¬ reduction.LacksElement r.size (r.axes p.output)
        ((r.axes p.input).filter (· ∉ r.axes p.output)) := by
      rintro ⟨-, -, ⟨a, ha, empty⟩, -⟩
      exact suits.size_ne_zero positive a (List.mem_of_mem_filter ha) empty
    obtain ⟨y, ran, -⟩ := succeeds present
    exact ⟨y, Engine.execute_eq_ok.mpr ⟨plan, planned, ran⟩⟩
  | repeatAlong =>
    obtain ⟨plan, y, planned, -, ran, -⟩ := Plan.exists_repeat suits
    exact ⟨y, Engine.execute_eq_ok.mpr ⟨plan, planned, ran⟩⟩

end Operation

end AxisNotation
