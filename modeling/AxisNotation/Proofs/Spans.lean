import AxisNotation.Pattern.Validity
import AxisNotation.Proofs.Layout

/-!
# Sides that differ in their spans

Nothing that plans and resolutions look at depends on where the terms of a side stand in a text, so
sides that differ only in their spans have the same names, ellipses, groups, axes and extents
(`Terms.eq_of_same`), and a tensor shows the same along them (`Tensor.ShowsSide.of_same`).
-/

namespace AxisNotation

variable {width : Nat} {size σ : Axis → Nat}

mutual

lemma Term.names_bare (t : Term) : t.bare.names = t.names := by
  cases t with
  | group ms s => exact Terms.names_bare ms
  | _ => rfl

lemma Terms.names_bare (ts : Terms) : (Terms.bare ts).names = Terms.names ts := by
  cases ts with
  | nil => rfl
  | cons t ts => exact congrArg₂ List.append (Term.names_bare t) (Terms.names_bare ts)

end

mutual

lemma Term.ellipses_bare (t : Term) : t.bare.ellipses = t.ellipses := by
  cases t with
  | group ms s => exact Terms.ellipses_bare ms
  | _ => rfl

lemma Terms.ellipses_bare (ts : Terms) : (Terms.bare ts).ellipses = Terms.ellipses ts := by
  cases ts with
  | nil => rfl
  | cons t ts => exact congrArg₂ (· + ·) (Term.ellipses_bare t) (Terms.ellipses_bare ts)

end

mutual

lemma Term.groups_bare (t : Term) :
    t.bare.groups = t.groups.map fun g => (Terms.bare g.1, .nowhere) := by
  cases t with
  | group ms s =>
    rw [Term.bare, Term.groups, Term.groups, Terms.groups_bare ms, List.map_append]
    rfl
  | _ => rfl

lemma Terms.groups_bare (ts : Terms) :
    Terms.groups (Terms.bare ts) = (Terms.groups ts).map fun g => (Terms.bare g.1, .nowhere) := by
  cases ts with
  | nil => rfl
  | cons t ts =>
    rw [Terms.bare, Terms.groups, Terms.groups, List.map_append, Term.groups_bare t,
      Terms.groups_bare ts]

end

mutual

lemma Term.axes_bare (t : Term) : t.bare.axes width = t.axes width := by
  cases t with
  | group ms s => exact Terms.axes_bare ms
  | _ => rfl

lemma Terms.axes_bare (ts : Terms) : (Terms.bare ts).axes width = Terms.axes width ts := by
  cases ts with
  | nil => rfl
  | cons t ts => exact congrArg₂ List.append (Term.axes_bare t) (Terms.axes_bare ts)

end

lemma Term.extents_bare (t : Term) : t.bare.extents width size = t.extents width size := by
  cases t with
  | group ms s => exact congrArg (fun axes => [Axis.volume size axes]) (Terms.axes_bare ms)
  | _ => rfl

lemma Term.coordinates_bare (t : Term) :
    t.bare.coordinates width size σ = t.coordinates width size σ := by
  cases t with
  | group ms s => exact congrArg (fun axes => [Axis.number size σ axes]) (Terms.axes_bare ms)
  | _ => rfl

namespace Terms

lemma extents_bare (ts : Terms) : (Terms.bare ts).extents width size = ts.extents width size := by
  rw [bare_eq_map, extents, extents, List.flatMap_map]
  exact List.flatMap_congr fun t _ => Term.extents_bare t

lemma coordinates_bare (ts : Terms) :
    (Terms.bare ts).coordinates width size σ = ts.coordinates width size σ := by
  rw [bare_eq_map, coordinates, coordinates, List.flatMap_map]
  exact List.flatMap_congr fun t _ => Term.coordinates_bare t

variable {ts us : Terms}

/-- What does not depend on spans is the same for sides that differ only in them. -/
lemma eq_of_same {β : Type} {f : Terms → β} (bare : ∀ ts, f (Terms.bare ts) = f ts)
    (h : ts.same us = true) : f ts = f us := by
  rw [← bare ts, (same_iff ts us).mp h, bare us]

lemma axes_of_same (h : ts.same us = true) : Terms.axes width ts = Terms.axes width us :=
  eq_of_same axes_bare h

lemma extents_of_same (h : ts.same us = true) : ts.extents width size = us.extents width size :=
  eq_of_same extents_bare h

lemma coordinates_of_same (h : ts.same us = true) :
    ts.coordinates width size σ = us.coordinates width size σ :=
  eq_of_same coordinates_bare h

end Terms

/-- A tensor shows the same along a side, wherever its terms stand in a text. -/
lemma Tensor.ShowsSide.of_same {α : Type} {t : Tensor α} {ts us : Terms}
    {f : (Axis → Nat) → Option α} (h : t.ShowsSide width size ts f) (same : ts.same us = true) :
    t.ShowsSide width size us f := by
  obtain ⟨shape, element⟩ := h
  refine ⟨shape.trans (Terms.extents_of_same same), fun σ inRange => ?_⟩
  rw [← Terms.coordinates_of_same same]
  apply element
  rw [Terms.axes_of_same same]
  exact inRange

end AxisNotation
