import AxisNotation.Proofs.Agreement

/-!
# Shortcuts do what the general steps do

Of the patterns that are valid for rearranging, exactly the plain ones have a shortcut, and it
stands for the input positions of the output axes (`Pattern.permutation?_eq_some`). Taking the
shortcut makes of every tensor what the way through the elementary axes makes of it, with or without
the steps that change nothing (`Plan.shortcut_exact`).
-/

namespace AxisNotation

/-! ## Plain terms -/

/-- Each of the terms names one axis. -/
def Terms.Plain (ts : Terms) : Prop :=
  ∀ t ∈ ts, ∃ n, t.name? = some n

lemma Terms.plainNames?_eq_some {ts : Terms} {names : List String} :
    ts.plainNames? = some names ↔ ts.Plain ∧ names = Terms.names ts := by
  rw [plainNames?, mapM_eq_some]
  induction ts generalizing names with
  | nil =>
    rw [List.forall₂_nil_left_iff]
    exact ⟨fun h => ⟨nofun, h⟩, fun h => h.2⟩
  | cons t ts ih =>
    simp only [List.forall₂_cons_left_iff, ih]
    constructor
    · rintro ⟨n, _, named, ⟨plain, rfl⟩, rfl⟩
      refine ⟨List.forall_mem_cons.mpr ⟨⟨n, named⟩, plain⟩, ?_⟩
      cases t with
      | name m s => exact congrArg (· :: _) (Option.some.inj named).symm
      | _ => cases named
    · rintro ⟨plain, rfl⟩
      obtain ⟨⟨n, named⟩, plain⟩ := List.forall_mem_cons.mp plain
      refine ⟨n, Terms.names ts, named, ⟨plain, rfl⟩, ?_⟩
      cases t with
      | name m s => exact congrArg (· :: _) (Option.some.inj named)
      | _ => cases named

/-- Plain terms have their names one by one. -/
lemma Terms.Plain.map_name? {ts : Terms} (h : ts.Plain) :
    ts.map Term.name? = (Terms.names ts).map some := by
  induction ts with
  | nil => rfl
  | cons t ts ih =>
    obtain ⟨⟨n, named⟩, plain⟩ := List.forall_mem_cons.mp h
    rw [List.map_cons, ih plain]
    cases t with
    | name m s => rfl
    | _ => cases named

lemma Terms.Plain.length_names {ts : Terms} (h : ts.Plain) :
    (Terms.names ts).length = ts.length := by
  have e := congrArg List.length h.map_name?
  rw [List.length_map, List.length_map] at e
  exact e.symm

namespace Pattern

variable {p : Pattern} {given : List String} {positions : List Nat}

lemma Valid.perm_names (h : p.Valid .rearranging given) : p.output.names.Perm p.input.names := by
  obtain ⟨kept, known⟩ := h.namesMatch
  refine (List.perm_ext_iff_of_nodup (h.distinct .output) (h.distinct .input)).mpr fun n => ?_
  exact ⟨fun hn => known hn, fun hn => kept hn⟩

/-- A valid pattern permutes axes when it is plain on both sides, and then it takes each output axis
from the position that its name has on the input. -/
theorem permutation?_eq_some (h : p.Valid .rearranging given) :
    p.permutation? = some positions ↔ (p.input.Plain ∧ p.output.Plain)
      ∧ positions = p.output.names.map (p.input.names.idxOf ·) := by
  have perm := h.perm_names
  have found : p.output.names.filterMap p.input.names.idxOf?
      = p.output.names.map (p.input.names.idxOf ·) := by
    rw [← List.filterMap_eq_map]
    exact List.filterMap_congr fun n hn => idxOf?_eq_some (perm.subset hn)
  simp only [permutation?, Option.bind_eq_bind, Option.bind_eq_some_iff,
    Terms.plainNames?_eq_some]
  constructor
  · rintro ⟨_, ⟨input, rfl⟩, _, ⟨output, rfl⟩, h⟩
    rw [found, List.length_map, if_pos perm.length_eq.symm, if_pos perm.length_eq] at h
    exact ⟨⟨input, output⟩, (Option.some.inj h).symm⟩
  · rintro ⟨⟨input, output⟩, rfl⟩
    refine ⟨_, ⟨input, rfl⟩, _, ⟨output, rfl⟩, ?_⟩
    rw [found, List.length_map, if_pos perm.length_eq.symm, if_pos perm.length_eq]

end Pattern

namespace Shortcut

/-- The input position of each output axis, on a tensor with `rank` axes. -/
def positions (rank : Nat) : Shortcut → List Nat
  | identity => List.range rank
  | transpose => [1, 0]
  | permute axes => axes

/-- The simplest form of a permutation stands for the same positions. -/
lemma positions_ofPermutation (ps : List Nat) : (ofPermutation ps).positions ps.length = ps := by
  unfold ofPermutation
  split
  · next order => exact (eq_of_beq order).symm
  · split
    · next swap => exact swap.symm
    · rfl

end Shortcut

/-! ## The way through the elementary axes -/

namespace Plan

/-- All steps through the elementary axes: the input is split into them, they are brought into the
order of the output, and the result is given the output shape. No step is left out, not even one
that changes nothing. -/
def fullSteps (p : Pattern) (r : Resolution) : Outcome (List Step) := do
  let sizes ← r.axisSizes p.text (r.axes p.input)
  let positions ← Axis.positions p.text (r.axes p.input) (r.axes p.output)
  return [.reshape sizes, .permute positions, .reshape r.outputShape]

variable {p : Pattern} {r : Resolution} {shape : Shape} {given : List String}

/-- The full steps, once the sizes and the positions have been looked up. -/
lemma fullSteps_eq (suits : r.Suits .rearranging p shape given) :
    fullSteps p r = .ok [.reshape ((r.axes p.input).map r.size),
      .permute ((r.axes p.output).map ((r.axes p.input).idxOf ·)), .reshape r.outputShape] := by
  have sizes : r.axisSizes p.text (r.axes p.input) = .ok ((r.axes p.input).map r.size) :=
    suits.axisSizes_eq .input
  have sub : r.axes p.output ⊆ r.axes p.input := (suits.valid.perm_axes _).subset
  rw [fullSteps, sizes, Axis.positions_eq sub]
  rfl

variable {α : Type} [Scalar α] {x : Tensor α} {f : (Axis → Nat) → Option α}

/-- The full steps take a tensor to the output side. -/
lemma exists_fullSteps (suits : r.Suits .rearranging p x.shape given)
    (shows : x.ShowsSide r.covered.length r.size p.input f) :
    ∃ steps y, fullSteps p r = .ok steps ∧ (Tensor.backend α).takeSteps x steps = .ok y
      ∧ y.ShowsSide r.covered.length r.size p.output f := by
  have perm := suits.valid.perm_axes r.covered.length
  obtain ⟨v, split, shows⟩ := shows.split
  obtain ⟨u, permuted, shows⟩ := shows.permute (suits.valid.nodup_axes .input _) perm
  obtain ⟨y, merged, shows⟩ := shows.merge
  refine ⟨_, y, fullSteps_eq suits, ?_, shows⟩
  rw [← suits.output] at merged
  simp only [Service.takeSteps, List.foldlM_cons, List.foldlM_nil, bind_eq_ok]
  exact ⟨v, split, u, permuted, y, merged, rfl⟩

/-- A valid pattern has a shortcut exactly when all its terms name one axis each. The shortcut
stands for a permutation that takes each output axis from the place of its name on the input, and on
every tensor on which the pattern is resolved it makes what the general steps make, whether or not
these are merged. -/
theorem shortcut_exact (p : Pattern) (given : List String)
    (valid : p.check .rearranging given = .ok ()) :
    ((∃ shortcut, Shortcut.ofPattern? p = some shortcut) ↔ Terms.Plain (p.input ++ p.output))
    ∧ ∀ shortcut, Shortcut.ofPattern? p = some shortcut →
      (shortcut.positions p.input.length).Perm (List.range p.input.length)
      ∧ (shortcut.positions p.input.length).map (fun k => p.input[k]? >>= Term.name?)
        = p.output.map Term.name?
      ∧ ∀ {α : Type} [Scalar α] (x : Tensor α) (explicit : SizeList) (r : Resolution),
        Resolution.solve .rearranging p x.shape explicit = .ok r →
          rearrangeSteps p x.shape r = .ok [shortcut.step]
          ∧ ∃ general full y, generalSteps p x.shape r = .ok general ∧ fullSteps p r = .ok full
            ∧ (Tensor.backend α).takeSteps x [shortcut.step] = .ok y
            ∧ (Tensor.backend α).takeSteps x general = .ok y
            ∧ (Tensor.backend α).takeSteps x full = .ok y := by
  have valid := Pattern.check_eq_ok.mp valid
  have perm := valid.perm_names
  refine ⟨?_, fun shortcut found => ?_⟩
  · rw [Terms.Plain, List.forall_mem_append]
    constructor
    · rintro ⟨shortcut, found⟩
      obtain ⟨positions, permuted, -⟩ := Option.map_eq_some_iff.mp found
      exact ((Pattern.permutation?_eq_some valid).mp permuted).1
    · intro plain
      have permuted := (Pattern.permutation?_eq_some valid).mpr ⟨plain, rfl⟩
      exact ⟨_, Option.map_eq_some_iff.mpr ⟨_, permuted, rfl⟩⟩
  obtain ⟨positions, permuted, rfl⟩ := Option.map_eq_some_iff.mp found
  obtain ⟨⟨input, output⟩, rfl⟩ := (Pattern.permutation?_eq_some valid).mp permuted
  have rank : p.input.length = (p.output.names.map (p.input.names.idxOf ·)).length := by
    rw [List.length_map, perm.length_eq, input.length_names]
  rw [rank, Shortcut.positions_ofPermutation, ← rank]
  refine ⟨?_, ?_, fun {α} _ x explicit r solved => ?_⟩
  · rw [← input.length_names]
    exact List.isPerm_iff.mp (isPerm_positions (valid.distinct .input) perm)
  · rw [List.map_map, output.map_name?]
    apply List.map_congr_left
    intro n hn
    -- the name is found on the input at the position that is looked up
    have place : (p.input.names.map some)[p.input.names.idxOf n]? = some (some n) := by
      rw [List.getElem?_map, List.getElem?_idxOf (perm.subset hn), Option.map_some]
    rw [← input.map_name?, List.getElem?_map, Option.map_eq_some_iff] at place
    obtain ⟨t, ht, named⟩ := place
    rw [Function.comp_apply, ht]
    exact named
  · have suits := Resolution.suits_of_solve (valid.of_rearranging .rearranging) solved
    obtain ⟨y, made, shows⟩ := shortcut_makes suits suits.shows permuted
    obtain ⟨general, planned⟩ := exists_generalSteps suits
    obtain ⟨z, taken, shows'⟩ := generalSteps_make suits suits.shows planned
    obtain ⟨full, w, planned', taken', shows''⟩ := exists_fullSteps suits suits.shows
    -- each of the three tensors shows along the output what the given one shows along the input
    have nodup := valid.nodup_axes .output r.covered.length
    obtain rfl : y = z := shows.ext nodup shows' fun _ _ => rfl
    obtain rfl : y = w := shows.ext nodup shows'' fun _ _ => rfl
    refine ⟨?_, general, full, y, planned, planned', Shortcut.takeSteps_step made, taken, taken'⟩
    rw [rearrangeSteps, found]

/-- Three axes of which the last one becomes the first. -/
def rotation : Pattern :=
  .ofSides [.name "a" .nowhere, .name "b" .nowhere, .name "c" .nowhere]
    [.name "c" .nowhere, .name "a" .nowhere, .name "b" .nowhere]

/-- A rotation of three axes is one permutation, and not its own inverse. -/
theorem shortcut_exact_rotation :
    rotation.check .rearranging [] = .ok ()
      ∧ Shortcut.ofPattern? rotation = some (.permute [2, 0, 1])
      ∧ [2, 0, 1].map (fun k => rotation.input[k]? >>= Term.name?) = [some "c", some "a", some "b"]
      ∧ ∃ r general y, Resolution.solve .rearranging rotation [2, 3, 4] [] = .ok r
        ∧ generalSteps rotation [2, 3, 4] r = .ok general
        ∧ (Tensor.backend Float).takeSteps (.ofFn [2, 3, 4] Float.ofNat) [.permute [2, 0, 1]]
          = .ok y
        ∧ (Tensor.backend Float).takeSteps (.ofFn [2, 3, 4] Float.ofNat) general = .ok y := by
  have valid : rotation.check .rearranging [] = .ok () := by decide +kernel
  have found : Shortcut.ofPattern? rotation = some (.permute [2, 0, 1]) := by decide +kernel
  have shaped : (Resolution.solve .rearranging rotation [2, 3, 4] []).map Resolution.outputShape
      = .ok [4, 2, 3] := by decide +kernel
  obtain ⟨r, solved, -⟩ := map_eq_ok.mp shaped
  obtain ⟨-, exact⟩ := shortcut_exact rotation [] valid
  obtain ⟨-, names, steps⟩ := exact _ found
  obtain ⟨-, general, -, y, planned, -, taken, taken', -⟩ :=
    steps (.ofFn [2, 3, 4] Float.ofNat) [] r solved
  exact ⟨valid, found, names, r, general, y, solved, planned, taken, taken'⟩

end Plan

end AxisNotation
