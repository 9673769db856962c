import AxisNotation.Axis
import AxisNotation.Proofs.Tensor

/-!
# Layouts

What the terms of a side mean for a tensor. Under sizes of the elementary axes a side has a shape
(`Terms.extents`), and an assignment of coordinates to the elementary axes has an index in it
(`Terms.coordinates`): a group is one axis, on which the assignment stands at its number in mixed
radix. Splitting a side into its elementary axes changes no offset (`Terms.offset_coordinates`), so
a reshape leads from the side to its elementary axes and back.
-/

namespace AxisNotation

namespace Axis

/-- The number of assignments to some axes of the given sizes. -/
def volume (size : Axis → Nat) (axes : List Axis) : Nat :=
  (axes.map size).prod

/-- The number of an assignment in mixed radix, the first axis the most significant. -/
def number (size σ : Axis → Nat) : List Axis → Nat
  | [] => 0
  | a :: as => σ a * volume size as + number size σ as

variable {size σ : Axis → Nat}

lemma volume_eq_elements (axes : List Axis) :
    volume size axes = Shape.elements (axes.map size) := by
  rw [volume, Shape.elements_eq_prod]

lemma number_eq_offset (axes : List Axis) :
    number size σ axes = Index.offset (axes.map σ) (Shape.strides (axes.map size)) := by
  induction axes with
  | nil => rfl
  | cons a as ih => rw [number, ih, volume_eq_elements]; rfl

lemma volume_append (as bs : List Axis) :
    volume size (as ++ bs) = volume size as * volume size bs := by
  rw [volume, volume, volume, List.map_append, List.prod_append]

lemma number_append (as bs : List Axis) :
    number size σ (as ++ bs) = number size σ as * volume size bs + number size σ bs := by
  simp only [number_eq_offset, volume_eq_elements, List.map_append]
  exact Index.offset_append (by rw [List.length_map, List.length_map])

lemma number_lt {axes : List Axis} (h : InRange size σ axes) :
    number size σ axes < volume size axes := by
  rw [number_eq_offset, volume_eq_elements]
  exact Index.offset_lt (Index.isIn_map.mpr h)

end Axis

/-- The dimensions that a term takes, where the ellipsis covers `width` of them. -/
def Term.extents (width : Nat) (size : Axis → Nat) : Term → Shape
  | .name n _ => [size (.named n)]
  | .group ms _ => [Axis.volume size (Terms.axes width ms)]
  | .ellipsis _ => (List.range width).map fun i => size (.covered i)
  | .unit _ => [1]

/-- The coordinates of an assignment on the dimensions that a term takes. -/
def Term.coordinates (width : Nat) (size σ : Axis → Nat) : Term → Index
  | .name n _ => [σ (.named n)]
  | .group ms _ => [Axis.number size σ (Terms.axes width ms)]
  | .ellipsis _ => (List.range width).map fun i => σ (.covered i)
  | .unit _ => [0]

namespace Terms

/-- The shape of a side. -/
def extents (width : Nat) (size : Axis → Nat) (ts : Terms) : Shape :=
  ts.flatMap (Term.extents width size)

/-- The index of an assignment in the shape of a side. -/
def coordinates (width : Nat) (size σ : Axis → Nat) (ts : Terms) : Index :=
  ts.flatMap (Term.coordinates width size σ)

end Terms

variable {width : Nat} {size σ : Axis → Nat}

lemma Term.elements_extents (t : Term) :
    (t.extents width size).elements = Axis.volume size (t.axes width) := by
  cases t with
  | name n s => rfl
  | group ms s => exact Nat.mul_one _
  | ellipsis s =>
    rw [Term.extents, Term.axes, Axis.volume_eq_elements, List.map_map]
    rfl
  | unit s => rfl

lemma Term.length_coordinates (t : Term) :
    (t.coordinates width size σ).length = (t.extents width size).length := by
  cases t with
  | ellipsis s => rw [Term.coordinates, Term.extents, List.length_map, List.length_map]
  | _ => rfl

lemma Term.isIn_coordinates {t : Term} (h : InRange size σ (t.axes width)) :
    (t.coordinates width size σ).isIn (t.extents width size) = true := by
  cases t with
  | name n s => exact Index.isIn_iff.mpr (.cons (h _ List.mem_cons_self) .nil)
  | group ms s => exact Index.isIn_iff.mpr (.cons (Axis.number_lt h) .nil)
  | ellipsis s =>
    refine Index.isIn_map.mpr fun i hi => h _ ?_
    exact List.mem_map_of_mem hi
  | unit s => rfl

lemma Term.offset_coordinates (t : Term) :
    (t.coordinates width size σ).offset (t.extents width size).strides
      = Axis.number size σ (t.axes width) := by
  cases t with
  | name n s => rfl
  | group ms s => exact Nat.mul_one _
  | ellipsis s =>
    rw [Term.coordinates, Term.extents, Term.axes, Axis.number_eq_offset, List.map_map,
      List.map_map]
    rfl
  | unit s => rfl

namespace Terms

lemma elements_extents (ts : Terms) :
    (extents width size ts).elements = Axis.volume size (Terms.axes width ts) := by
  induction ts with
  | nil => rfl
  | cons t ts ih =>
    rw [extents, List.flatMap_cons, Shape.elements_append, Term.elements_extents, Terms.axes,
      Axis.volume_append]
    exact congrArg _ ih

lemma isIn_coordinates {ts : Terms} (h : InRange size σ (Terms.axes width ts)) :
    (coordinates width size σ ts).isIn (extents width size ts) = true := by
  induction ts with
  | nil => rfl
  | cons t ts ih =>
    obtain ⟨first, rest⟩ := List.forall_mem_append.mp h
    exact Index.isIn_append (Term.isIn_coordinates first) (ih rest)

/-- The offset of an assignment in a side is its number along the elementary axes. -/
lemma offset_coordinates (ts : Terms) :
    (coordinates width size σ ts).offset (extents width size ts).strides
      = Axis.number size σ (Terms.axes width ts) := by
  induction ts with
  | nil => rfl
  | cons t ts ih =>
    rw [coordinates, extents, List.flatMap_cons, List.flatMap_cons,
      Index.offset_append (Term.length_coordinates t), Term.offset_coordinates, Terms.axes,
      Axis.number_append, ← elements_extents]
    exact congrArg _ ih

end Terms

namespace Tensor

variable {α : Type} {t u : Tensor α}

/-- A tensor shows a function of assignments along some labels when it has the shape of the labels'
sizes and, at each assignment in range, the value of the function. -/
def Shows {β : Type} (t : Tensor α) (size : β → Nat) (labels : List β)
    (f : (β → Nat) → Option α) : Prop :=
  t.shape = labels.map size ∧ ∀ σ, InRange size σ labels → t.get? (labels.map σ) = f σ

/-- A tensor shows a function of assignments along the terms of a side. -/
def ShowsSide (t : Tensor α) (width : Nat) (size : Axis → Nat) (ts : Terms)
    (f : (Axis → Nat) → Option α) : Prop :=
  t.shape = ts.extents width size
    ∧ ∀ σ, InRange size σ (ts.axes width) → t.get? (ts.coordinates width size σ) = f σ

variable {ts : Terms} {f : (Axis → Nat) → Option α}

/-- A tensor in the shape of a side can be split into the elementary axes of the side. -/
theorem ShowsSide.split (h : t.ShowsSide width size ts f) :
    ∃ u, t.reshape ((ts.axes width).map size) = .ok u ∧ u.Shows size (ts.axes width) f := by
  obtain ⟨shape, element⟩ := h
  have count : Shape.elements ((ts.axes width).map size) = t.shape.elements := by
    rw [shape, Terms.elements_extents, Axis.volume_eq_elements]
  obtain ⟨u, made, shape', place⟩ := exists_reshape count
  refine ⟨u, made, shape', fun σ h => ?_⟩
  rw [← element σ h]
  apply place
  · rw [shape]
    exact Terms.isIn_coordinates h
  · exact Index.isIn_map.mpr h
  · rw [shape, Terms.offset_coordinates, Axis.number_eq_offset]

/-- A tensor along the elementary axes of a side can be merged into the shape of the side. -/
theorem Shows.merge (h : t.Shows size (ts.axes width) f) :
    ∃ u, t.reshape (ts.extents width size) = .ok u ∧ u.ShowsSide width size ts f := by
  obtain ⟨shape, element⟩ := h
  have count : (ts.extents width size).elements = t.shape.elements := by
    rw [shape, Terms.elements_extents, Axis.volume_eq_elements]
  obtain ⟨u, made, shape', place⟩ := exists_reshape count
  refine ⟨u, made, shape', fun σ h => ?_⟩
  rw [← element σ h]
  apply place
  · rw [shape]
    exact Index.isIn_map.mpr h
  · exact Terms.isIn_coordinates h
  · rw [shape, Terms.offset_coordinates, Axis.number_eq_offset]

/-- Permuting a tensor reorders the labels along which it shows a function. -/
theorem Shows.permute {β : Type} [DecidableEq β] {size : β → Nat} {labels targets : List β}
    {f : (β → Nat) → Option α} (h : t.Shows size labels f) (nodup : labels.Nodup)
    (perm : targets.Perm labels) :
    ∃ u, t.permute (targets.map (labels.idxOf ·)) = .ok u ∧ u.Shows size targets f := by
  obtain ⟨shape, element⟩ := h
  obtain ⟨u, made, shape', element'⟩ := exists_permute nodup perm shape
  refine ⟨u, made, shape', ?_⟩
  intro σ h
  have h := h.perm perm.symm
  rw [element' σ h, element σ h]

end Tensor

end AxisNotation
