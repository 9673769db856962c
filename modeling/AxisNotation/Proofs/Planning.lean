import AxisNotation.Proofs.Draft
import AxisNotation.Proofs.Resolution.Exact

/-!
# What plans rely on

A plan is made from a resolution that suits the pattern and the shape (`Resolution.Suits`): both
sides have the shapes that the sizes of the elementary axes give them, and every axis has a size. So
the sizes and positions that a plan looks up are there.
-/

namespace AxisNotation

namespace Resolution

/-- The elementary axes of a side. -/
def axes (r : Resolution) (ts : Terms) : List Axis :=
  ts.axes r.covered.length

/-- The shape of a side. -/
def extents (r : Resolution) (ts : Terms) : Shape :=
  ts.extents r.covered.length r.size

/-- The index of an assignment of coordinates to the elementary axes, in the shape of a side. -/
def index (r : Resolution) (ts : Terms) (σ : Axis → Nat) : Index :=
  ts.coordinates r.covered.length r.size σ

end Resolution

/-- A resolution of a valid pattern gives both sides their shapes, and a size to every name. -/
structure Resolution.Suits (r : Resolution) (kind : Kind) (p : Pattern) (shape : Shape)
    (given : List String) : Prop where
  valid : p.Valid kind given
  input : shape = p.input.extents r.covered.length r.size
  output : r.outputShape = p.output.extents r.covered.length r.size
  bound : ∀ side, ∀ n ∈ (p.side side).names, n ∈ r.sizes

lemma Axis.positions_eq {pattern : String} {axes targets : List Axis} (h : targets ⊆ axes) :
    Axis.positions pattern axes targets = .ok (targets.map (axes.idxOf ·)) := by
  apply mapM_eq_ok_map
  intro a ha
  rw [Outcome.orReject_eq_ok]
  exact idxOf?_eq_some (h ha)

namespace Resolution

variable {kind : Kind} {p : Pattern} {shape : Shape} {explicit : SizeList} {given : List String}
  {r : Resolution}

/-- What the solver finds suits the pattern. -/
lemma suits_of_solve (valid : p.Valid kind explicit.names)
    (h : solve kind p shape explicit = .ok r) : r.Suits kind p shape explicit.names := by
  obtain ⟨solvable, covered, output⟩ := (solve_eq_ok valid).mp h
  refine ⟨valid, ?_, output, fun side n hn => (solvable.consistent.names n).mpr ?_⟩
  · rw [size, covered]
    exact (solvable.consistent.faces.extents_eq fun t ht => valid.ellipses_of_single ht).symm
  · cases side with
    | input => exact .inl hn
    | output => exact .inr hn

lemma Suits.axisSizes_eq (h : r.Suits kind p shape given) (side : Side) :
    r.axisSizes p.text ((p.side side).axes r.covered.length)
      = .ok (((p.side side).axes r.covered.length).map r.size) := by
  apply mapM_eq_ok_map
  intro a ha
  cases a with
  | named n =>
    obtain ⟨d, hd⟩ := Sizes.mem_iff.mp (h.bound side n (Terms.named_mem_axes.mp ha))
    rw [axisSize, Outcome.orReject_eq_ok, hd, size, Sizes.ofAxis, Sizes.getD_of_getElem? hd]
  | covered i =>
    obtain ⟨bound, -⟩ := Terms.covered_mem_axes.mp ha
    rw [axisSize, Outcome.orReject_eq_ok, size, Sizes.ofAxis, List.getD_eq_getElem _ 0 bound,
      List.getElem?_eq_getElem bound]

variable {α : Type} {x u : Tensor α} {f : (Axis → Nat) → Option α} {d : Draft}

lemma Suits.shows (h : r.Suits kind p x.shape given) :
    x.ShowsSide r.covered.length r.size p.input
      fun σ => x.get? (p.input.coordinates r.covered.length r.size σ) :=
  ⟨h.input, fun _ _ => rfl⟩

variable [Scalar α]

/-- A draft splits the input side into its elementary axes and brings these into another order. -/
lemma Suits.exists_ordered (h : r.Suits kind p x.shape given)
    (shows : x.ShowsSide r.covered.length r.size p.input f) {targets : List Axis}
    (perm : targets.Perm (p.input.axes r.covered.length)) :
    ∃ d u, ((Draft.start x.shape).reshape ((p.input.axes r.covered.length).map r.size)).permute
        (targets.map ((p.input.axes r.covered.length).idxOf ·)) = .ok d
      ∧ d.Makes x u ∧ u.Shows r.size targets f := by
  obtain ⟨v, split, shows⟩ := shows.split
  obtain ⟨u, permuted, shows⟩ := shows.permute (h.valid.nodup_axes .input _) perm
  obtain ⟨d, drafted, makes⟩ := ((Draft.Makes.start x).reshape split).permute permuted
  exact ⟨d, u, drafted, makes, shows⟩

end Resolution

/-- A draft that leads to the elementary axes of a side is merged into the side. -/
lemma Draft.Makes.exists_merged {α : Type} [Scalar α] {x u : Tensor α} {d : Draft} {width : Nat}
    {size : Axis → Nat} {ts : Terms} {f : (Axis → Nat) → Option α} (makes : d.Makes x u)
    (shows : u.Shows size (ts.axes width) f) :
    ∃ y, (d.reshape (ts.extents width size)).Makes x y ∧ y.ShowsSide width size ts f := by
  obtain ⟨y, merged, shows⟩ := shows.merge
  exact ⟨y, makes.reshape merged, shows⟩

/-- Any elements will do to follow the shapes of a run. -/
def Plan.placeholder (shape : Shape) : Tensor Float :=
  .ofFn shape fun _ => Scalar.zero

end AxisNotation
