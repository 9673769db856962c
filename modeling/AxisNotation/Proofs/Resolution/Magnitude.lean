import AxisNotation.Proofs.Planning

/-!
# Sizes that can be multiplied

Partial products only grow until they meet a zero, so a product of sizes can be stated when that of
the sizes that are not zero does not exceed the limit (`Shape.product?_of_bulk`), and without zeros
exactly then (`Shape.exists_product?`). Whether the groups of a side fit is then a matter of their
volumes (`Terms.fits_iff`), and the volume of a group divides that of any side around it. On a shape
without zeros no axis of a solved pattern is empty (`Pattern.Solvable.ofAxis_ne_zero`).
-/

namespace AxisNotation

namespace Shape

lemma le_of_foldlM {sizes : List Nat} {a k : Nat} (h : sizes.foldlM times? a = some k)
    (ha : a ≤ sizeLimit) : k ≤ sizeLimit := by
  induction sizes generalizing a with
  | nil => exact Option.some.inj h ▸ ha
  | cons d ds ih =>
    simp only [List.foldlM_cons, Option.bind_eq_bind, Option.bind_eq_some_iff] at h
    obtain ⟨b, hb, h⟩ := h
    unfold times? at hb
    split at hb
    · next bound => exact ih h (Option.some.inj hb ▸ bound)
    · cases hb

/-- The product of the sizes that are not zero. -/
def bulk (sizes : List Nat) : Nat :=
  (sizes.filter fun d => d ≠ 0).prod

lemma bulk_pos (sizes : List Nat) : 0 < bulk sizes := by
  apply Nat.pos_of_ne_zero
  rw [bulk, ne_eq, List.prod_eq_zero_iff]
  simp

lemma bulk_cons {d : Nat} (nonzero : d ≠ 0) (ds : List Nat) : bulk (d :: ds) = d * bulk ds := by
  rw [bulk, List.filter_cons_of_pos (by simpa using nonzero), List.prod_cons, bulk]

lemma bulk_append (ds es : List Nat) : bulk (ds ++ es) = bulk ds * bulk es := by
  rw [bulk, List.filter_append, List.prod_append, bulk, bulk]

lemma bulk_eq_prod {sizes : List Nat} (positive : 0 ∉ sizes) : bulk sizes = sizes.prod := by
  rw [bulk, List.filter_eq_self.mpr]
  intro d hd
  exact decide_eq_true fun zero => positive (zero ▸ hd)

lemma bulk_le_of_sublist {sizes sizes' : List Nat} (sub : sizes.Sublist sizes') :
    bulk sizes ≤ bulk sizes' :=
  Nat.le_of_dvd (bulk_pos sizes') (sub.filter _).prod_dvd_prod

/-- One size that is the product of some has no more bulk than these. -/
lemma bulk_prod_le (sizes : List Nat) : bulk [sizes.prod] ≤ bulk sizes := by
  by_cases zero : 0 ∈ sizes
  · rw [List.prod_eq_zero zero]
    exact bulk_pos sizes
  · have nonzero : sizes.prod ≠ 0 := mt List.prod_eq_zero_iff.mp zero
    rw [bulk_cons nonzero, bulk_eq_prod zero]
    exact (Nat.mul_one _).le

/-- Lists that are made piece by piece have the less bulk, the less each piece has. -/
lemma bulk_flatMap_le {τ : Type} {ts : List τ} {f g : τ → List Nat}
    (h : ∀ t, bulk (f t) ≤ bulk (g t)) : bulk (ts.flatMap f) ≤ bulk (ts.flatMap g) := by
  induction ts with
  | nil => exact le_rfl
  | cons t ts ih =>
    rw [List.flatMap_cons, List.flatMap_cons, bulk_append, bulk_append]
    exact Nat.mul_le_mul (h t) ih

/-- A zero keeps the partial products that follow it at zero, so only the others count. -/
lemma exists_foldlM {sizes : List Nat} {a : Nat} (bound : a * bulk sizes ≤ sizeLimit) :
    ∃ k, sizes.foldlM times? a = some k := by
  induction sizes generalizing a with
  | nil => exact ⟨a, rfl⟩
  | cons d ds ih =>
    have next : a * d * bulk ds ≤ sizeLimit := by
      by_cases zero : d = 0
      · rw [zero, Nat.mul_zero, Nat.zero_mul]
        exact Nat.zero_le _
      · rwa [bulk_cons zero, ← Nat.mul_assoc] at bound
    have partialBound : a * d ≤ sizeLimit :=
      Nat.le_trans (Nat.le_mul_of_pos_right _ (bulk_pos ds)) next
    obtain ⟨k, hk⟩ := ih next
    refine ⟨k, ?_⟩
    rw [List.foldlM_cons, times?, if_pos partialBound]
    exact hk

/-- A product can be stated when the sizes that are not zero stay within the limit. -/
theorem product?_of_bulk {sizes : List Nat} (bound : bulk sizes ≤ sizeLimit) :
    ∃ k, product? sizes = some k :=
  exists_foldlM (by rwa [Nat.one_mul])

/-- A product of sizes that are not zero can be stated exactly when it is within the limit. -/
theorem exists_product? {sizes : List Nat} (positive : 0 ∉ sizes) :
    (∃ k, product? sizes = some k) ↔ sizes.prod ≤ sizeLimit := by
  constructor
  · rintro ⟨k, hk⟩
    rw [← elements_eq_prod, ← eq_elements_of_product? hk]
    exact le_of_foldlM hk (by decide)
  · intro bound
    exact product?_of_bulk (bulk_eq_prod positive ▸ bound)

end Shape

variable {size : Axis → Nat} {width : Nat}

lemma Axis.volume_ne_zero {axes : List Axis} :
    volume size axes ≠ 0 ↔ ∀ a ∈ axes, size a ≠ 0 := by
  rw [volume, ne_eq, List.prod_eq_zero_iff, List.mem_map]
  push Not
  rfl

/-- Fewer axes have a smaller volume, since their volume is a divisor. -/
lemma Axis.volume_le_of_sublist {axes axes' : List Axis} (sub : axes.Sublist axes')
    (positive : ∀ a ∈ axes', size a ≠ 0) : volume size axes ≤ volume size axes' := by
  have divides : volume size axes ∣ volume size axes' := (sub.map size).prod_dvd_prod
  exact Nat.le_of_dvd (Nat.pos_of_ne_zero (volume_ne_zero.mpr positive)) divides

lemma Terms.extents_positive {ts : Terms} :
    0 ∉ Terms.extents width size ts ↔ ∀ a ∈ Terms.axes width ts, size a ≠ 0 := by
  rw [← Axis.volume_ne_zero, ← Terms.elements_extents, ne_eq, Shape.elements_eq_zero]

mutual

lemma Term.axes_sublist_of_group {t : Term} {g : Terms × Span} (h : g ∈ t.groups) :
    (Terms.axes width g.1).Sublist (t.axes width) := by
  cases t with
  | group ms s =>
    rw [Term.groups, List.mem_append, List.mem_singleton] at h
    rcases h with inner | rfl
    · exact Terms.axes_sublist_of_group inner
    · exact List.Sublist.refl _
  | _ => cases h

/-- The axes of a group stand among those of the terms around it. -/
lemma Terms.axes_sublist_of_group {ts : Terms} {g : Terms × Span} (h : g ∈ Terms.groups ts) :
    (Terms.axes width g.1).Sublist (Terms.axes width ts) := by
  cases ts with
  | nil => cases h
  | cons t ts =>
    rcases List.mem_append.mp h with first | rest
    · exact (Term.axes_sublist_of_group first).trans (List.sublist_append_left _ _)
    · exact (Terms.axes_sublist_of_group rest).trans (List.sublist_append_right _ _)

end

namespace Terms

variable {m : Sizes} {run : Shape} {ts : Terms}

lemma axes_sublist_of_mem {t : Term} (h : t ∈ ts) :
    (t.axes width).Sublist (Terms.axes width ts) := by
  rw [Terms.axes_eq_flatMap, List.flatMap_def]
  exact List.sublist_flatten_of_mem (List.mem_map_of_mem h)

lemma map_axes_eq_flatMap (width : Nat) (size : Axis → Nat) (ts : Terms) :
    (Terms.axes width ts).map size = ts.flatMap fun t => (t.axes width).map size := by
  rw [axes_eq_flatMap, List.map_flatMap]

/-- The members of a group have no more bulk than its axes. -/
lemma bulk_members_le (ts : Terms) : Shape.bulk (ts.map (Term.volume m run))
    ≤ Shape.bulk ((Terms.axes run.length ts).map (m.ofAxis run)) := by
  rw [map_axes_eq_flatMap, ← List.flatMap_pure_eq_map]
  exact Shape.bulk_flatMap_le fun t => Shape.bulk_prod_le _

/-- The dimensions of a side have no more bulk than its axes. -/
lemma bulk_extents_le (size : Axis → Nat) (ts : Terms) :
    Shape.bulk (Terms.extents width size ts) ≤ Shape.bulk ((Terms.axes width ts).map size) := by
  rw [map_axes_eq_flatMap, Terms.extents]
  refine Shape.bulk_flatMap_le fun t => ?_
  cases single : t.isEllipsis with
  | true =>
    obtain ⟨s, rfl⟩ := Term.exists_of_isEllipsis single
    rw [Term.axes, List.map_map]
    exact le_rfl
  | false =>
    rw [Term.extents_of_single single]
    exact Shape.bulk_prod_le _

/-- The size of a group can be stated when the bulk of its axes is within the limit. -/
lemma groupFits_of_bulk
    (bound : Shape.bulk ((Terms.axes run.length ts).map (m.ofAxis run)) ≤ Shape.sizeLimit) :
    GroupFits m run ts := by
  refine ⟨fun isOpen => ?_, Shape.product?_of_bulk ((bulk_members_le ts).trans bound)⟩
  -- an ellipsis among the members covers some of the group's axes
  obtain ⟨t, mem, ellipsis⟩ := List.any_eq_true.mp isOpen
  obtain ⟨s, rfl⟩ := Term.exists_of_isEllipsis ellipsis
  have sub : ((Term.ellipsis s).axes run.length).Sublist (Terms.axes run.length ts) :=
    axes_sublist_of_mem mem
  have covered : ((Term.ellipsis s).axes run.length).map (m.ofAxis run) = run := by
    rw [Term.axes, List.map_map]
    exact Sizes.map_ofAxis_covered
  apply Shape.product?_of_bulk
  conv => lhs; rw [← covered]
  exact (Shape.bulk_le_of_sublist (sub.map _)).trans bound

/-- The groups of a side fit when the bulk of its axes is within the limit. -/
theorem fits_of_bulk
    (bound : Shape.bulk ((Terms.axes run.length ts).map (m.ofAxis run)) ≤ Shape.sizeLimit) :
    Fits m run ts := by
  intro g hg
  apply groupFits_of_bulk
  exact (Shape.bulk_le_of_sublist ((axes_sublist_of_group hg).map _)).trans bound

/-- The size of a group without empty axes can be stated when its volume is within the limit. -/
lemma groupFits_iff (positive : ∀ a ∈ Terms.axes run.length ts, m.ofAxis run a ≠ 0) :
    GroupFits m run ts
      ↔ Axis.volume (m.ofAxis run) (Terms.axes run.length ts) ≤ Shape.sizeLimit := by
  have nonzero := Axis.volume_ne_zero.mpr positive
  rw [Axis.volume, ne_eq, List.prod_eq_zero_iff] at nonzero
  constructor
  · rintro ⟨-, product⟩
    rw [Shape.exists_product?, ← Terms.volume_eq_prod] at product
    · exact product
    · rw [← List.prod_eq_zero_iff, ← Terms.volume_eq_prod]
      exact Axis.volume_ne_zero.mpr positive
  · intro bound
    apply groupFits_of_bulk
    rw [Shape.bulk_eq_prod nonzero]
    exact bound

/-- A group without empty axes fits, with all groups inside it, when its volume is within the
limit. -/
lemma group_fits_iff (positive : ∀ a ∈ Terms.axes run.length ts, m.ofAxis run a ≠ 0) (s : Span) :
    (∀ g ∈ (Term.group ts s).groups, GroupFits m run g.1)
      ↔ Axis.volume (m.ofAxis run) (Terms.axes run.length ts) ≤ Shape.sizeLimit := by
  rw [← groupFits_iff positive, Term.groups, List.forall_mem_append, List.forall_mem_singleton]
  refine and_iff_right_of_imp fun outer g inner => ?_
  have sub : (Terms.axes run.length g.1).Sublist (Terms.axes run.length ts) :=
    axes_sublist_of_group inner
  rw [groupFits_iff positive] at outer
  rw [groupFits_iff fun a ha => positive a (sub.subset ha)]
  exact (Axis.volume_le_of_sublist sub positive).trans outer

/-- The groups of a side without empty axes fit when their volumes are within the limit. -/
theorem fits_iff (positive : ∀ a ∈ Terms.axes run.length ts, m.ofAxis run a ≠ 0) :
    Fits m run ts ↔ ∀ g ∈ Terms.groups ts,
      Axis.volume (m.ofAxis run) (Terms.axes run.length g.1) ≤ Shape.sizeLimit := by
  refine forall₂_congr fun g hg => groupFits_iff fun a ha => ?_
  exact positive a ((axes_sublist_of_group hg).subset ha)

end Terms

namespace Pattern

variable {kind : Kind} {p : Pattern} {shape : Shape} {explicit : SizeList} {m : Sizes}

lemma Consistent.input_eq (valid : p.Valid kind explicit.names)
    (h : p.Consistent shape explicit m) :
    p.input.extents (p.input.captured shape).length (m.ofAxis (p.input.captured shape)) = shape :=
  h.faces.extents_eq fun _ ht => valid.ellipses_of_single ht

/-- Consistent sizes leave no axis empty when neither the shape nor the explicit sizes have
zeros. -/
lemma Consistent.ofAxis_ne_zero (valid : p.Valid kind explicit.names)
    (h : p.Consistent shape explicit m) (sized : ∀ n size, (n, size) ∈ explicit → size ≠ 0)
    (positive : 0 ∉ shape) (side : Side) :
    ∀ a ∈ (p.side side).axes (p.input.captured shape).length,
      m.ofAxis (p.input.captured shape) a ≠ 0 := by
  have input : ∀ a ∈ p.input.axes (p.input.captured shape).length,
      m.ofAxis (p.input.captured shape) a ≠ 0 := by
    rw [← Terms.extents_positive, h.input_eq valid]
    exact positive
  cases side with
  | input => exact input
  | output =>
    intro a ha
    by_cases known : a ∈ p.input.axes (p.input.captured shape).length
    · exact input a known
    · cases a with
      | named n =>
        -- a name that only the output has is of an explicit size, and those are positive
        have output := Terms.named_mem_axes.mp ha
        obtain ⟨-, given⟩ := valid.repeating_of_new output (mt Terms.named_mem_axes.mpr known)
        obtain ⟨k, hk⟩ := SizeList.mem_names.mp given
        have bound : n ∈ m := (h.names n).mpr (.inr output)
        show m.getD n 0 ≠ 0
        rw [Sizes.getD_of_getElem? (h.agrees n k hk bound)]
        exact sized n k hk
      | covered i =>
        obtain ⟨inside, some⟩ := Terms.covered_mem_axes.mp ha
        exact absurd (Terms.covered_mem_axes.mpr ⟨inside, valid.ellipsisKnown some⟩) known

/-- No axis of a solved pattern is empty when the shape has no zeros. -/
theorem Solvable.ofAxis_ne_zero (valid : p.Valid kind explicit.names)
    (h : p.Solvable kind shape explicit m) (positive : 0 ∉ shape) (side : Side) :
    ∀ a ∈ (p.side side).axes (p.input.captured shape).length,
      m.ofAxis (p.input.captured shape) a ≠ 0 :=
  h.consistent.ofAxis_ne_zero valid h.positive positive side

end Pattern

/-- No axis of the input is empty when the shape has no zeros. -/
lemma Resolution.Suits.size_ne_zero {kind : Kind} {p : Pattern} {shape : Shape}
    {given : List String} {r : Resolution} (h : r.Suits kind p shape given) (positive : 0 ∉ shape) :
    ∀ a ∈ r.axes p.input, r.size a ≠ 0 := by
  rw [h.input] at positive
  exact Terms.extents_positive.mp positive

end AxisNotation
