import AxisNotation.Proofs.Resolution.Exact

/-!
# When there is no resolution

The reasons for which a valid pattern has no resolution on a shape are listed without reference to
the solver (`Pattern.Unsolvable`). The solver fails for these reasons and no others, and what it
finds otherwise is the only consistent choice of sizes (`Resolution.solve_exact`).
-/

namespace AxisNotation

/-- Why a valid pattern has no resolution on a shape under some explicit sizes. -/
inductive Pattern.Unsolvable (kind : Kind) (p : Pattern) (shape : Shape) (explicit : SizeList) :
    Prop where
  | zeroSize {n} : (n, 0) ∈ explicit → Unsolvable kind p shape explicit
  | conflict {n k k'} : (n, k) ∈ explicit → (n, k') ∈ explicit → k ≠ k' →
    Unsolvable kind p shape explicit
  /-- The rank is neither the number of terms that take a dimension nor, with an ellipsis, above
  it. -/
  | rank : shape.length ≠ p.input.dimensions →
    ¬ (p.input.isOpen = true ∧ p.input.dimensions ≤ shape.length) →
    Unsolvable kind p shape explicit
  | inconsistent : (¬ ∃ m, p.Consistent shape explicit m) → Unsolvable kind p shape explicit
  /-- Several names of a group have no explicit size. -/
  | undetermined {ms s} : .group ms s ∈ p.input →
    1 < ((Terms.names ms).filter fun n => (explicit.lookup n).isNone).length →
    Unsolvable kind p shape explicit
  /-- The product of the explicit sizes in a group is too large to state. -/
  | knownOverflow {ms s} : .group ms s ∈ p.input →
    Shape.product? ((Terms.names ms).filterMap (explicit.lookup ·)) = none →
    Unsolvable kind p shape explicit
  /-- The size of a group of the output, or of an ellipsis in one, is too large to state. -/
  | sizeOverflow {m} : p.Consistent shape explicit m →
    ¬ p.output.Fits m (p.input.captured shape) → Unsolvable kind p shape explicit
  /-- The number of elements that rearranging has to keep is too large to state. -/
  | countOverflow {m} : kind = .rearranging → p.Consistent shape explicit m →
    Shape.product? shape = none ∨ Shape.product? (p.output.extents (p.input.captured shape).length
      (m.ofAxis (p.input.captured shape))) = none →
    Unsolvable kind p shape explicit

namespace Resolution

variable {kind : Kind} {p : Pattern} {shape : Shape} {explicit : SizeList} {m : Sizes}

lemma not_unsolvable (valid : p.Valid kind explicit.names)
    (solvable : p.Solvable kind shape explicit m) : ¬ p.Unsolvable kind shape explicit := by
  intro unsolvable
  cases unsolvable with
  | zeroSize mem => exact solvable.positive _ 0 mem rfl
  | conflict mem mem' differ => exact differ (solvable.agree _ _ _ mem mem')
  | rank differ small =>
    have takes := takes_of_faces solvable.consistent.faces (valid.one_ellipsis .input)
    exact (takes_iff.mp takes).elim differ small
  | inconsistent none => exact none ⟨m, solvable.consistent⟩
  | undetermined mem several => exact Nat.not_le.mpr several (solvable.determined _ _ mem).1
  | knownOverflow mem overflow =>
    obtain ⟨k, hk⟩ := (solvable.determined _ _ mem).2
    rw [overflow] at hk
    cases hk
  | sizeOverflow consistent overflow =>
    obtain rfl := unique_of_solvable valid solvable consistent
    exact overflow solvable.fits
  | countOverflow rearranging consistent overflow =>
    obtain rfl := unique_of_solvable valid solvable consistent
    obtain ⟨⟨k, before⟩, k', after⟩ := solvable.counted rearranging
    rw [before, after] at overflow
    exact overflow.elim nofun nofun

lemma exists_solvable (h : ¬ p.Unsolvable kind shape explicit) :
    ∃ m, p.Solvable kind shape explicit m := by
  obtain ⟨m, consistent⟩ : ∃ m, p.Consistent shape explicit m := by
    by_contra none
    exact h (.inconsistent none)
  refine ⟨m, fun n size mem => ?_, fun n k k' mem mem' => ?_, fun ms s mem => ⟨?_, ?_⟩, consistent,
    ?_, fun rearranging => ⟨?_, ?_⟩⟩
  · rintro rfl
    exact h (.zeroSize mem)
  · by_contra differ
    exact h (.conflict mem mem' differ)
  · by_contra several
    exact h (.undetermined mem (Nat.not_le.mp several))
  · exact Option.ne_none_iff_exists'.mp fun none => h (.knownOverflow mem none)
  · by_contra overflow
    exact h (.sizeOverflow consistent overflow)
  · refine Option.ne_none_iff_exists'.mp fun none => ?_
    exact h (.countOverflow rearranging consistent (.inl none))
  · refine Option.ne_none_iff_exists'.mp fun none => ?_
    exact h (.countOverflow rearranging consistent (.inr none))

/-- A valid pattern is resolved to its only consistent sizes, or rejected for one of the reasons why
it has no resolution. -/
theorem solve_exact (kind : Kind) (p : Pattern) (shape : Shape) (explicit : SizeList)
    (valid : p.check kind explicit.names = .ok ()) :
    (∀ r, solve kind p shape explicit = .ok r →
      p.Consistent shape explicit r.sizes
        ∧ (∀ m, p.Consistent shape explicit m → m = r.sizes)
        ∧ r.covered = p.input.captured shape
        ∧ r.outputShape = p.output.extents r.covered.length (r.sizes.ofAxis r.covered))
    ∧ ((∃ r, solve kind p shape explicit = .ok r) ↔ ¬ p.Unsolvable kind shape explicit)
    ∧ ((∃ e, solve kind p shape explicit = .error (.rejected e))
      ↔ p.Unsolvable kind shape explicit) := by
  have valid := Pattern.check_eq_ok.mp valid
  have resolved : (∃ r, solve kind p shape explicit = .ok r)
      ↔ ¬ p.Unsolvable kind shape explicit := by
    constructor
    · rintro ⟨r, h⟩
      exact not_unsolvable valid ((solve_eq_ok valid).mp h).1
    · intro h
      obtain ⟨m, solvable⟩ := exists_solvable h
      -- the sizes determine the run and the output shape
      let run := p.input.captured shape
      refine ⟨⟨m, run, p.output.extents run.length (m.ofAxis run)⟩, ?_⟩
      exact (solve_eq_ok valid).mpr ⟨solvable, rfl, rfl⟩
  refine ⟨fun r h => ?_, resolved, ?_⟩
  · obtain ⟨solvable, covered, output⟩ := (solve_eq_ok valid).mp h
    exact ⟨solvable.consistent, fun m => unique_of_solvable valid solvable, covered, output⟩
  · rw [← not_iff_not, ← resolved]
    constructor
    · intro accepted
      by_contra none
      exact accepted ((settles_solve valid).exists_rejected fun r h => none ⟨r, h⟩)
    · rintro ⟨r, h⟩ ⟨e, h'⟩
      rw [h] at h'
      cases h'

/-- A group of two names on a dimension of six, of which one name has the explicit size two. -/
def splitPattern : Pattern :=
  .ofSides [.group [.name "h" .nowhere, .name "w" .nowhere] .nowhere]
    [.name "w" .nowhere, .name "h" .nowhere]

/-- One of two sizes in a group determines the other. -/
theorem solve_exact_split :
    splitPattern.check .rearranging (SizeList.names [("h", 2)]) = .ok ()
      ∧ (∃ r, solve .rearranging splitPattern [6] [("h", 2)] = .ok r ∧ r.outputShape = [3, 2])
      ∧ ∃! m, splitPattern.Consistent [6] [("h", 2)] m := by
  have valid : splitPattern.check .rearranging (SizeList.names [("h", 2)]) = .ok () := by
    decide +kernel
  have shape : (solve .rearranging splitPattern [6] [("h", 2)]).map Resolution.outputShape
      = .ok [3, 2] := by decide +kernel
  obtain ⟨exact, -⟩ := solve_exact .rearranging splitPattern [6] [("h", 2)] valid
  cases solved : solve .rearranging splitPattern [6] [("h", 2)] with
  | error e =>
    rw [solved] at shape
    cases shape
  | ok r =>
    rw [solved] at shape
    obtain ⟨consistent, unique, -⟩ := exact r solved
    exact ⟨valid, ⟨r, rfl, Except.ok.inj shape⟩, r.sizes, consistent, unique⟩

end Resolution

end AxisNotation
