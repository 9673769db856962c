import AxisNotation.Proofs.Tensor
import AxisNotation.Step.Draft

/-!
# What the steps of a draft make

A draft leaves out steps that change nothing and merges reshapes. Its steps still make of a tensor
what the requested reshapes and permutations make of it (`Draft.Makes.reshape`,
`Draft.Makes.permute`), and taking them succeeds (`Draft.Makes.takeSteps`).
-/

namespace AxisNotation

lemma Draft.shape_reshape (d : Draft) (target : Shape) : (d.reshape target).shape = target := by
  unfold Draft.reshape
  split
  · assumption
  · split
    · split
      · rfl
      · rfl
    · rfl

variable {α : Type} [Scalar α] {t u v : Tensor α}

/-- Recorded steps, the latest first, make of one tensor another, and each knows the shape that it
is applied to. -/
inductive RecordedStep.Make (t : Tensor α) : List RecordedStep → Tensor α → Prop where
  | nil : Make t [] t
  | cons {r rest u v} : Make t rest u → r.before = u.shape →
    (Tensor.backend α).takeStep u r.step = .ok v → Make t (r :: rest) v

/-- The steps of a draft make of one tensor another, of the shape that the draft leads to. -/
structure Draft.Makes (t : Tensor α) (d : Draft) (u : Tensor α) : Prop where
  recorded : RecordedStep.Make t d.recorded u
  shape : u.shape = d.shape

lemma RecordedStep.Make.takeSteps {recorded : List RecordedStep} (h : Make t recorded u) :
    (Tensor.backend α).takeSteps t (recorded.map RecordedStep.step).reverse = .ok u := by
  induction h with
  | nil => rfl
  | @cons r rest u v _ _ step ih =>
    rw [List.map_cons, List.reverse_cons, Service.takeSteps, List.foldlM_append, bind_eq_ok]
    refine ⟨u, ih, ?_⟩
    rw [List.foldlM_cons, bind_eq_ok]
    exact ⟨v, step, rfl⟩

namespace Draft.Makes

variable {d : Draft}

lemma takeSteps (h : d.Makes t u) : (Tensor.backend α).takeSteps t d.steps = .ok u :=
  h.recorded.takeSteps

lemma start (t : Tensor α) : (Draft.start t.shape).Makes t t :=
  ⟨.nil, rfl⟩

/-- A reshape that is added to a draft takes place, also when it is merged with the one before. -/
lemma reshape {target : Shape} (h : d.Makes t u) (made : u.reshape target = .ok v) :
    (d.reshape target).Makes t v := by
  obtain ⟨recorded, shape⟩ := h
  have result : v.shape = target := (Tensor.reshape_eq_ok.mp made).1
  unfold Draft.reshape
  split
  · next same =>
    -- the shape is there already
    rw [← same, ← shape, Tensor.reshape_self] at made
    cases made
    exact ⟨recorded, shape⟩
  · split
    · next before latest rest e =>
      rw [e] at recorded
      cases recorded with
      | @cons _ _ w _ first known step =>
        have known : before = w.shape := known
        have merged : w.reshape target = .ok v :=
          (Tensor.reshape_of_reshape step target).symm.trans made
        split
        · next back =>
          -- both reshapes together lead back to the shape before them
          rw [back.symm.trans known, Tensor.reshape_self] at merged
          cases merged
          exact ⟨first, known.symm.trans back⟩
        · exact ⟨.cons first known merged, result⟩
    · exact ⟨.cons recorded shape.symm made, result⟩

/-- A permutation that is added to a draft takes place. -/
lemma permute {axes : List Nat} (h : d.Makes t u) (made : u.permute axes = .ok v) :
    ∃ d', d.permute axes = .ok d' ∧ d'.Makes t v := by
  unfold Draft.permute
  split
  · next order =>
    rw [Tensor.eq_of_permute_inOrder order made]
    exact ⟨d, rfl, h⟩
  · obtain ⟨-, shape⟩ := Tensor.of_permute made
    rw [h.shape] at shape
    rw [shape]
    exact ⟨_, rfl, .cons h.recorded h.shape.symm made, rfl⟩

end Draft.Makes

end AxisNotation
