import AxisNotation.Proofs.Agreement
import AxisNotation.Proofs.Resolution.Failure
import AxisNotation.Proofs.Sizing

/-!
# Rearranging in two steps

Once the size of every axis is given, a tensor that is rearranged from one side to a second and from
there to a third is the tensor rearranged to the third at once (`Operation.rearrange_compose`). The
sides may be grouped in any way and the plans have nothing in common; what connects them is that
sizes without zeros that measure one side of a valid pattern measure the other
(`Terms.Measured.output`), and that these are sizes of the whole pattern (`Terms.Measured.sized`).
-/

namespace AxisNotation

/-! ## Sizes that measure a side -/

/-- Sizes of exactly the axes of a side, none of which is empty, and of a volume that can be
stated. -/
structure Terms.Measured (m : Sizes) (run : Shape) (ts : Terms) : Prop where
  names : ∀ n, n ∈ m ↔ .named n ∈ Terms.axes run.length ts
  closed : (∀ i, .covered i ∉ Terms.axes run.length ts) → run = []
  positive : ∀ a ∈ Terms.axes run.length ts, m.ofAxis run a ≠ 0
  bound : Axis.volume (m.ofAxis run) (Terms.axes run.length ts) ≤ Shape.sizeLimit

namespace Terms.Measured

variable {m : Sizes} {run : Shape} {ts us : Terms} {p : Pattern} {given : List String}

lemma of_same (h : ts.Measured m run) (same : ts.same us = true) : us.Measured m run := by
  have axes : Terms.axes run.length ts = Terms.axes run.length us := axes_of_same same
  exact ⟨axes ▸ h.names, axes ▸ h.closed, axes ▸ h.positive, axes ▸ h.bound⟩

/-- Both sides of a rearrangement have the same axes, so they are measured by the same sizes. -/
lemma output (h : p.input.Measured m run) (valid : p.Valid .rearranging given) :
    p.output.Measured m run := by
  have perm := valid.perm_axes run.length
  refine ⟨fun n => ?_, fun none => ?_, fun a ha => ?_, ?_⟩
  · rw [h.names, perm.mem_iff]
  · exact h.closed fun i hi => none i (perm.mem_iff.mpr hi)
  · exact h.positive a (perm.mem_iff.mp ha)
  · have volume := (perm.map (m.ofAxis run)).prod_eq
    rw [Axis.volume, volume]
    exact h.bound

lemma exists_product? (h : ts.Measured m run) :
    ∃ k, Shape.product? (ts.extents run.length (m.ofAxis run)) = some k := by
  apply (Shape.exists_product? (Terms.extents_positive.mpr h.positive)).mpr
  rw [← Shape.elements_eq_prod, Terms.elements_extents]
  exact h.bound

lemma side (h : p.input.Measured m run) (valid : p.Valid .rearranging given) (side : Side) :
    (p.side side).Measured m run := by
  cases side with
  | input => exact h
  | output => exact h.output valid

/-- Sizes that measure one side of a rearrangement are sizes of the whole pattern. -/
lemma sized (h : p.input.Measured m run) (valid : p.Valid .rearranging given) :
    p.Sized m run := by
  refine ⟨fun n => ?_, fun none => h.closed fun i hi => ?_,
    fun side => (h.side valid side).positive, fun side => List.forall_mem_map.mpr fun g hg => ?_⟩
  · rw [h.names, Terms.named_mem_axes]
    exact (or_iff_left_of_imp fun hn => valid.namesMatch.2 hn).symm
  · exact (Terms.covered_mem_axes.mp hi).2.ne' (none .input)
  · obtain ⟨-, -, positive, bound⟩ := h.side valid side
    exact Nat.le_trans (Axis.volume_le_of_sublist (Terms.axes_sublist_of_group hg) positive) bound

end Terms.Measured

namespace Resolution

variable {p : Pattern} {shape : Shape} {explicit : SizeList} {r : Resolution} {m : Sizes}
  {run : Shape} {given : List String}

/-- What the solver finds on a shape without zeros measures the input. -/
lemma measured_of_solve (valid : p.Valid .rearranging explicit.names) (positive : 0 ∉ shape)
    (h : solve .rearranging p shape explicit = .ok r) : p.input.Measured r.sizes r.covered := by
  obtain ⟨solvable, covered, -⟩ := (solve_eq_ok valid).mp h
  have input := solvable.consistent.input_eq valid
  obtain ⟨⟨k, hk⟩, -⟩ := solvable.counted rfl
  rw [covered]
  refine ⟨fun n => ?_, fun none => ?_, solvable.ofAxis_ne_zero valid positive .input, ?_⟩
  · rw [solvable.consistent.names, Terms.named_mem_axes]
    exact or_iff_left_of_imp fun hn => valid.namesMatch.2 hn
  · rcases Nat.eq_zero_or_pos p.input.ellipses with closed | some
    · exact Terms.captured_of_no_ellipsis closed
    · by_contra nonempty
      exact none 0 (Terms.covered_mem_axes.mpr ⟨List.length_pos_iff.mpr nonempty, some⟩)
  · rw [← Terms.elements_extents, input, Shape.elements_eq_prod]
    exact (Shape.exists_product? positive).mp ⟨k, hk⟩

end Resolution

/-! ## Two rearrangements in a row -/

namespace Operation

variable {α : Type} [Scalar α] {p : Pattern} {sizes explicit : SizeList} {m : Sizes}
  {run : Shape} {given : List String} {x : Tensor α} {r : Resolution}

/-- A tensor along one side of a valid pattern is rearranged to the other side, when all sizes that
measure the sides are given. -/
lemma exists_rearranged (config : Config) (valid : p.Valid .rearranging given)
    (measured : p.input.Measured m run) (listed : ∀ n k, (n, k) ∈ sizes ↔ m[n]? = some k)
    {f : (Axis → Nat) → Option α} (shows : x.ShowsSide run.length (m.ofAxis run) p.input f) :
    ∃ y, rearrange.apply config (Tensor.backend α) x p sizes = .ok y
      ∧ y.ShowsSide run.length (m.ofAxis run) p.output f := by
  have resolved : Engine.resolve config rearrange.kind x.shape sizes p = .ok (p, _) :=
    Engine.resolve_of_sized config valid (measured.sized valid) listed
      (fun _ side => (measured.side valid side).exists_product?) shows.1
  obtain ⟨-, valid', -, solved⟩ := Engine.resolve_eq_ok.mp resolved
  obtain ⟨plan, y, planned, -, ran, made⟩ :=
    Plan.exists_rearrange (Resolution.suits_of_solve valid' solved)
  refine ⟨y, ?_, made.1, fun σ inRange => ?_⟩
  · rw [apply_eq_run resolved]
    exact Engine.execute_eq_ok.mpr ⟨plan, planned, ran⟩
  · apply (made.2 σ inRange).trans
    exact shows.2 σ (inRange.perm (valid.perm_axes run.length).symm)

/-- Rearranging from one side to a second, and from there to a third, is rearranging to the third,
when all sizes that the first pattern has on a tensor without empty axes are given. If the third
side is the first one, the tensor comes back. -/
theorem rearrange_compose (config : Config) (pq qr pr : Pattern) (x : Tensor α)
    (valid : pq.check .rearranging [] = .ok ()) (valid' : qr.check .rearranging [] = .ok ())
    (valid'' : pr.check .rearranging [] = .ok ()) (first : pq.input.same pr.input = true)
    (second : pq.output.same qr.input = true) (third : qr.output.same pr.output = true)
    (positive : 0 ∉ x.shape) (solved : Resolution.solve .rearranging pq x.shape explicit = .ok r)
    (listed : ∀ n k, (n, k) ∈ sizes ↔ r.sizes[n]? = some k) :
    ∃ y z, rearrange.apply config (Tensor.backend α) x pq sizes = .ok y
      ∧ rearrange.apply config (Tensor.backend α) y qr sizes = .ok z
      ∧ rearrange.apply config (Tensor.backend α) x pr sizes = .ok z
      ∧ (pr.output.same pr.input = true → z = x) := by
  have valid := Pattern.check_eq_ok.mp valid
  have valid' := Pattern.check_eq_ok.mp valid'
  have valid'' := Pattern.check_eq_ok.mp valid''
  have valid_pq : pq.Valid .rearranging explicit.names := valid.of_rearranging .rearranging
  have shows := (Resolution.suits_of_solve valid_pq solved).shows
  -- the sizes measure all three sides
  have measured := Resolution.measured_of_solve valid_pq positive solved
  obtain ⟨y, made, shows_y⟩ := exists_rearranged config valid measured listed shows
  obtain ⟨z, made', shows_z⟩ := exists_rearranged config valid'
    ((measured.output valid).of_same second) listed (shows_y.of_same second)
  obtain ⟨z', made'', shows_z'⟩ := exists_rearranged config valid'' (measured.of_same first) listed
    (shows.of_same first)
  have same : z = z' := by
    apply (shows_z.of_same third).ext (valid''.nodup_axes .output _) shows_z'
    exact fun _ _ => rfl
  subst same
  refine ⟨y, z, made, made', made'', fun back => ?_⟩
  apply (shows_z'.of_same back).ext (valid''.nodup_axes .input _) (shows.of_same first)
  exact fun _ _ => rfl

/-- A split and a swap are undone. -/
theorem rearrange_compose_split :
    ∃ r y, Resolution.solve .rearranging Resolution.splitPattern [6] [("h", 2)] = .ok r
      ∧ rearrange.apply .standard (Tensor.backend Float) (.ofFn [6] Float.ofNat)
        Resolution.splitPattern r.sizes.toList = .ok y
      ∧ rearrange.apply .standard (Tensor.backend Float) y
        (.ofSides Resolution.splitPattern.output Resolution.splitPattern.input) r.sizes.toList
          = .ok (.ofFn [6] Float.ofNat) := by
  have shape : (Resolution.solve .rearranging Resolution.splitPattern [6] [("h", 2)]).map
      Resolution.outputShape = .ok [3, 2] := by decide +kernel
  obtain ⟨r, solved, -⟩ := map_eq_ok.mp shape
  obtain ⟨y, z, made, made', -, back⟩ :=
    rearrange_compose .standard Resolution.splitPattern
      (.ofSides Resolution.splitPattern.output Resolution.splitPattern.input)
      (.ofSides Resolution.splitPattern.input Resolution.splitPattern.input)
      (.ofFn [6] Float.ofNat) (by decide +kernel) (by decide +kernel) (by decide +kernel)
      (by decide +kernel) (by decide +kernel) (by decide +kernel) (by decide +kernel) solved
      (fun n k => Std.ExtTreeMap.mem_toList_iff_getElem?_eq_some)
  exact ⟨r, y, solved, made, back (by decide +kernel) ▸ made'⟩

end Operation

end AxisNotation
