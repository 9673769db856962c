import AxisNotation.Proofs.Engine

/-!
# Rearranging moves every element to its place

A rearrangement gives the output side the shape that the sizes of the axes give it, and takes the
element at each assignment of coordinates from the index of the assignment on the input side to its
index on the output side (`Engine.run_rearrange`). A pattern with a shortcut permutes the axes in
one step; any other goes through the elementary axes.
-/

namespace AxisNotation

variable {α : Type} {x y : Tensor α} {p : Pattern} {r : Resolution} {given : List String}
  {width : Nat} {size σ : Axis → Nat} {f : (Axis → Nat) → Option α}

namespace Shortcut

lemma takeSteps_step [Scalar α] {positions : List Nat} (h : x.permute positions = .ok y) :
    (Tensor.backend α).takeSteps x [(ofPermutation positions).step] = .ok y := by
  rw [Service.takeSteps, List.foldlM_cons, bind_eq_ok]
  refine ⟨y, ?_, rfl⟩
  unfold ofPermutation
  split
  · next order => exact congrArg Except.ok (Tensor.eq_of_permute_inOrder order h).symm
  · split
    · next e =>
      -- a transposition is the swap of the two axes, on a tensor of two axes only
      subst e
      obtain ⟨rank, -⟩ := Tensor.of_permute h
      exact (if_pos rank.symm).trans h
    · exact h

end Shortcut

/-- Terms that all name one axis each have these as their axes, in the same order. -/
lemma Terms.of_plainNames? {ts : Terms} {names : List String} (h : ts.plainNames? = some names)
    (width : Nat) : ts.axes width = names.map .named
      ∧ (∀ size, ts.extents width size = names.map fun n => size (.named n))
      ∧ ∀ size σ, ts.coordinates width size σ = names.map fun n => σ (.named n) := by
  have pointwise := mapM_eq_some.mp h
  clear h
  induction pointwise with
  | nil => exact ⟨rfl, fun _ => rfl, fun _ _ => rfl⟩
  | @cons t n ts names named _ ih =>
    obtain ⟨axes, extents, coordinates⟩ := ih
    cases t with
    | name m s =>
      cases named
      exact ⟨congrArg (_ :: ·) axes, fun size => congrArg (_ :: ·) (extents size),
        fun size σ => congrArg (_ :: ·) (coordinates size σ)⟩
    | _ => cases named

lemma Pattern.of_permutation? {positions : List Nat} (h : p.permutation? = some positions) :
    ∃ ins outs, p.input.plainNames? = some ins ∧ p.output.plainNames? = some outs
      ∧ positions = outs.filterMap ins.idxOf? := by
  simp only [permutation?, Option.bind_eq_bind, Option.bind_eq_some_iff] at h
  obtain ⟨ins, input, outs, output, h⟩ := h
  refine ⟨ins, outs, input, output, ?_⟩
  split at h
  · split at h
    · exact (Option.some.inj h).symm
    · cases h
  · cases h

namespace Plan

variable {steps : List Step}

/-- A shortcut takes a tensor to the output side. -/
lemma shortcut_makes (suits : r.Suits .rearranging p x.shape given)
    (shows : x.ShowsSide r.covered.length r.size p.input f) {positions : List Nat}
    (h : p.permutation? = some positions) :
    ∃ y, x.permute positions = .ok y ∧ y.ShowsSide r.covered.length r.size p.output f := by
  obtain ⟨ins, outs, input, output, rfl⟩ := p.of_permutation? h
  have perm := suits.valid.perm_axes r.covered.length
  have nodup := suits.valid.nodup_axes .input r.covered.length
  obtain ⟨axes, extents, coordinates⟩ := Terms.of_plainNames? input r.covered.length
  obtain ⟨axes', extents', coordinates'⟩ := Terms.of_plainNames? output r.covered.length
  rw [axes, axes', List.map_perm_map_iff fun _ _ => Axis.named.inj] at perm
  have nodup : ins.Nodup := by
    rw [Pattern.side, axes] at nodup
    exact nodup.of_map
  obtain ⟨shape, element⟩ := shows
  rw [extents] at shape
  obtain ⟨y, made, shape', element'⟩ := Tensor.exists_permute nodup perm shape
  have positions : outs.filterMap ins.idxOf? = outs.map (ins.idxOf ·) := by
    rw [← List.filterMap_eq_map]
    exact List.filterMap_congr fun n hn => idxOf?_eq_some (perm.subset hn)
  refine ⟨y, by rw [positions]; exact made, by rw [shape', extents'], fun σ h => ?_⟩
  rw [axes', InRange, List.forall_mem_map] at h
  have h' : ∀ n ∈ ins, σ (.named n) < r.size (.named n) := fun n hn => h n (perm.mem_iff.mpr hn)
  rw [coordinates', element' _ h', ← element σ, coordinates]
  rw [axes, InRange, List.forall_mem_map]
  exact h'

variable [Scalar α]

/-- The steps through the elementary axes take a tensor to the output side. -/
lemma generalSteps_make (suits : r.Suits .rearranging p x.shape given)
    (shows : x.ShowsSide r.covered.length r.size p.input f)
    (h : generalSteps p x.shape r = .ok steps) :
    ∃ y, (Tensor.backend α).takeSteps x steps = .ok y
      ∧ y.ShowsSide r.covered.length r.size p.output f := by
  have perm := suits.valid.perm_axes r.covered.length
  obtain ⟨d, u, drafted, makes, shows⟩ := suits.exists_ordered shows perm
  obtain ⟨y, makes, shows⟩ := makes.exists_merged shows
  simp only [generalSteps, bind_eq_ok, pure_eq_ok] at h
  obtain ⟨sizes, hs, positions, hp, d', hd, rfl⟩ := h
  obtain rfl := Except.ok.inj ((suits.axisSizes_eq .input).symm.trans hs)
  obtain rfl := Except.ok.inj ((Axis.positions_eq perm.subset).symm.trans hp)
  obtain rfl : d = d' := Except.ok.inj (drafted.symm.trans hd)
  rw [suits.output]
  exact ⟨y, makes.takeSteps, shows⟩

/-- The steps of a rearrangement take a tensor from the input side to the output side. -/
lemma rearrangeSteps_make (suits : r.Suits .rearranging p x.shape given)
    (shows : x.ShowsSide r.covered.length r.size p.input f)
    (h : rearrangeSteps p x.shape r = .ok steps) :
    ∃ y, (Tensor.backend α).takeSteps x steps = .ok y
      ∧ y.ShowsSide r.covered.length r.size p.output f := by
  unfold rearrangeSteps at h
  split at h
  · next shortcut found =>
    obtain ⟨positions, permuted, rfl⟩ := Option.map_eq_some_iff.mp found
    obtain ⟨y, made, shows⟩ := shortcut_makes suits shows permuted
    cases h
    exact ⟨y, Shortcut.takeSteps_step made, shows⟩
  · obtain ⟨general, planned, h⟩ := bind_eq_ok.mp h
    obtain ⟨y, made, shows⟩ := generalSteps_make suits shows planned
    rw [pure_eq_ok] at h
    split at h
    · next empty =>
      obtain rfl := List.isEmpty_iff.mp empty
      cases made
      exact ⟨x, h ▸ rfl, shows⟩
    · exact ⟨y, h ▸ made, shows⟩

end Plan

namespace Engine

variable [Scalar α] {e : Engine} {text : String} {explicit : SizeList} {plan : Plan.Rearrange}

end Engine

end AxisNotation
