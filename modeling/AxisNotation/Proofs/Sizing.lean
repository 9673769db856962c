import AxisNotation.Proofs.Operation
import AxisNotation.Proofs.Resolution.Magnitude
import AxisNotation.Proofs.Spans

/-!
# Patterns of which every size is given

When a list gives the size of every axis, there is nothing to be found out: a pattern is solved by
these sizes if none of them is zero and the volume of every group can be stated (`Pattern.Sized`,
`Engine.resolve_of_sized`). The sizes of a pattern are those of the pattern turned around.
-/

namespace AxisNotation

namespace Terms

variable {width limit : Nat} {size : Axis → Nat} {ts ms : Terms}

/-- The axes of every group, at any depth. -/
def groupAxes (width : Nat) (ts : Terms) : List (List Axis) :=
  (Terms.groups ts).map fun g => Terms.axes width g.1

lemma axes_mem_groupAxes {s : Span} (h : .group ms s ∈ ts) :
    Terms.axes width ms ∈ groupAxes width ts := by
  have inside : (ms, s) ∈ Terms.groups ts := by
    rw [Terms.groups_eq_flatMap]
    exact List.mem_flatMap_of_mem h (List.mem_append_right _ List.mem_cons_self)
  exact List.mem_map_of_mem inside

lemma captured_of_no_ellipsis {shape : Shape} (none : Terms.ellipses ts = 0) :
    ts.captured shape = [] := by
  have closed : ts.isOpen = false := by
    rw [isOpen_eq_false]
    exact Nat.le_zero.mp (none ▸ countP_isEllipsis_le ts)
  rw [captured, closed]
  rfl

end Terms

namespace Pattern

variable {kind : Kind} {p q : Pattern} {given : List String} {m : Sizes} {run : Shape}
  {sizes : SizeList}

/-- Sizes of exactly the axes of a pattern, none of which is empty, such that the volume of every
group can be stated. -/
structure Sized (m : Sizes) (run : Shape) (p : Pattern) : Prop where
  names : ∀ n, n ∈ m ↔ n ∈ p.input.names ∨ n ∈ p.output.names
  closed : (∀ side, (p.side side).ellipses = 0) → run = []
  positive : ∀ side, ∀ a ∈ (p.side side).axes run.length, m.ofAxis run a ≠ 0
  bound : ∀ side, ∀ axes ∈ (p.side side).groupAxes run.length,
    Axis.volume (m.ofAxis run) axes ≤ Shape.sizeLimit

namespace Sized

lemma fits (h : p.Sized m run) (side : Side) : (p.side side).Fits m run := by
  rw [Terms.fits_iff (h.positive side)]
  exact fun g hg => h.bound side _ (List.mem_map_of_mem hg)

/-- No size of a group is left to be found. -/
lemma determined (h : p.Sized m run) (valid : p.Valid kind given) :
    Terms.Determined m p.input := by
  intro ms s mem
  have sub : (Terms.axes run.length ms).Sublist (Terms.axes run.length p.input) :=
    Terms.axes_sublist_of_mem mem
  have axes := Terms.axes_of_no_ellipsis run.length (valid.ellipses_of_single mem rfl)
  have none : m.unknown (Terms.names ms) = [] := by
    apply List.filter_eq_nil_iff.mpr
    intro n hn
    have inside := Terms.named_mem_axes.mp (sub.subset (Terms.named_mem_axes.mpr hn))
    obtain ⟨d, hd⟩ := Sizes.mem_iff.mp ((h.names n).mpr (.inl inside))
    rw [hd]
    exact nofun
  -- all sizes of the group are known, and their product is its volume
  have volume : (m.known (Terms.names ms)).prod
      = Axis.volume (m.ofAxis run) (Terms.axes run.length ms) := by
    rw [axes, Axis.volume, List.map_map]
    exact (Sizes.product_eq_known (fun n _ k (hk : m[n]? = some k) => hk) none).symm
  have nonzero : 0 ∉ m.known (Terms.names ms) := by
    rw [← List.prod_eq_zero_iff, volume]
    exact Axis.volume_ne_zero.mpr fun a ha => h.positive .input a (sub.subset ha)
  refine ⟨by rw [none]; exact Nat.zero_le 1, (Shape.exists_product? nonzero).mpr ?_⟩
  rw [volume]
  exact h.bound .input _ (Terms.axes_mem_groupAxes mem)

/-- The ellipsis covers the run of axes that the sizes are for. -/
lemma captured_eq (h : p.Sized m run) (valid : p.Valid kind given) {shape : Shape}
    (faces : p.input.Faces m run shape) : p.input.captured shape = run := by
  cases isOpen : p.input.isOpen with
  | true => exact faces.captured_eq (valid.one_ellipsis .input) isOpen
  | false =>
    have input := valid.ellipses_of_closed isOpen
    have output : p.output.ellipses = 0 := by
      by_contra some
      exact (valid.ellipsisKnown (Nat.pos_of_ne_zero some)).ne' input
    rw [Terms.captured, isOpen]
    symm
    apply h.closed
    intro side
    cases side with
    | input => exact input
    | output => exact output

/-- A list of the sizes has only names of the pattern. -/
lemma allowed (h : p.Sized m run) (listed : ∀ n k, (n, k) ∈ sizes ↔ m[n]? = some k) :
    p.checkGiven sizes.names = .ok () := by
  refine checkGiven_eq_ok.mpr fun n hn => ?_
  obtain ⟨k, hk⟩ := SizeList.mem_names.mp hn
  have inside := (h.names n).mp (Sizes.mem_iff.mpr ⟨k, (listed n k).mp hk⟩)
  exact Name.mem_sorted.mpr (List.mem_append.mpr inside)

/-- A list of the sizes gives the names that only the output has. -/
lemma valid_listed (h : p.Sized m run) (listed : ∀ n k, (n, k) ∈ sizes ↔ m[n]? = some k)
    (valid : p.Valid kind given) : p.Valid kind sizes.names := by
  refine valid.change_given fun n output _ _ => SizeList.mem_names.mpr ?_
  obtain ⟨k, hk⟩ := Sizes.mem_iff.mp ((h.names n).mpr (.inr output))
  exact ⟨k, (listed n k).mpr hk⟩

end Sized

end Pattern

namespace Resolution

variable {kind : Kind} {p : Pattern} {shape : Shape} {explicit : SizeList} {r : Resolution}
  {m : Sizes} {run : Shape}

/-- A pattern is solved by its sizes when all of them are given. -/
theorem solve_of_sized (valid : p.Valid kind explicit.names) (h : p.Sized m run)
    (listed : ∀ n k, (n, k) ∈ explicit ↔ m[n]? = some k)
    (counted : kind = .rearranging → ∀ side,
      ∃ k, Shape.product? ((p.side side).extents run.length (m.ofAxis run)) = some k) :
    solve kind p (p.input.extents run.length (m.ofAxis run)) explicit
      = .ok ⟨m, run, p.output.extents run.length (m.ofAxis run)⟩ := by
  have faces : p.input.Faces m run (p.input.extents run.length (m.ofAxis run)) :=
    Terms.faces_extents (fun n hn => (h.names n).mpr (.inl hn))
      fun t ht => valid.ellipses_of_single ht
  have captured := h.captured_eq valid faces
  apply (solve_eq_ok valid).mpr
  rw [captured]
  refine ⟨⟨?_, ?_, ?_, ⟨?_, ?_, ?_⟩, ?_, ?_⟩, rfl, rfl⟩
  · intro n k mem
    have hk := (listed n k).mp mem
    obtain ⟨side, inside⟩ : ∃ side, n ∈ (p.side side).names := by
      rcases (h.names n).mp (Sizes.mem_iff.mpr ⟨k, hk⟩) with input | output
      · exact ⟨.input, input⟩
      · exact ⟨.output, output⟩
    have nonzero := h.positive side (.named n) (Terms.named_mem_axes.mpr inside)
    rwa [Sizes.ofAxis, Sizes.getD_of_getElem? hk] at nonzero
  · intro n k k' mem mem'
    exact Option.some.inj (((listed n k).mp mem).symm.trans ((listed n k').mp mem'))
  · exact (Terms.determinedBy_iff fun n k => (listed n k).symm).mpr (h.determined valid)
  · exact h.names
  · exact captured.symm ▸ faces
  · intro n k mem _
    exact (listed n k).mp mem
  · exact captured.symm ▸ h.fits .output
  · intro rearranging
    exact ⟨counted rearranging .input, captured.symm ▸ counted rearranging .output⟩

end Resolution

/-- A pattern is resolved by its sizes when all of them are given, in any configuration. -/
theorem Engine.resolve_of_sized {kind : Kind} {p : Pattern} {given : List String} {m : Sizes}
    {run shape : Shape} {sizes : SizeList} (config : Config) (valid : p.Valid kind given)
    (h : p.Sized m run) (listed : ∀ n k, (n, k) ∈ sizes ↔ m[n]? = some k)
    (counted : kind = .rearranging → ∀ side,
      ∃ k, Shape.product? ((p.side side).extents run.length (m.ofAxis run)) = some k)
    (input : shape = p.input.extents run.length (m.ofAxis run)) :
    resolve config kind shape sizes p
      = .ok (p, ⟨m, run, p.output.extents run.length (m.ofAxis run)⟩) := by
  subst input
  have valid := h.valid_listed listed valid
  have solved := Resolution.solve_of_sized valid h listed counted
  exact resolve_eq_ok.mpr ⟨rfl, valid, fun _ => h.allowed listed, solved⟩

end AxisNotation
