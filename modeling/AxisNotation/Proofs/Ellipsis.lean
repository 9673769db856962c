import AxisNotation.Proofs.Relabelling
import AxisNotation.Proofs.Spelling

/-!
# An ellipsis is a run of axes

On a shape without zeros, an ellipsis that faces as many dimensions as there are names can be
replaced by the names: the pattern is resolved when it was before, and every operation gives the
same tensor (`Operation.ellipsis_spelled`). Sizes of the axes of one pattern are sizes of the axes
of the other (`Pattern.SameSizes`), which solve both patterns or neither
(`Pattern.SameSizes.solvable_iff`).
-/

namespace AxisNotation

/-- The sizes of some names, as a function gives them. -/
def Sizes.tabulate (names : List String) (size : String → Nat) : Sizes :=
  names.foldr (fun n m => m.insert n (size n)) ∅

lemma Sizes.getElem?_tabulate (names : List String) (size : String → Nat) (n : String) :
    (tabulate names size)[n]? = if n ∈ names then some (size n) else none := by
  induction names with
  | nil => exact Std.ExtTreeMap.getElem?_empty
  | cons k ks ih =>
    rw [tabulate, List.foldr_cons, getElem?_insert]
    by_cases e : n = k
    · subst e
      simp
    · rw [if_neg e]
      refine ih.trans ?_
      simp [e]

lemma Sizes.mem_tabulate {names : List String} {size : String → Nat} {n : String} :
    n ∈ tabulate names size ↔ n ∈ names := by
  rw [mem_iff, getElem?_tabulate]
  by_cases h : n ∈ names
  · simp [h]
  · simp [h]

lemma Sizes.getD_tabulate {names : List String} {size : String → Nat} {n : String}
    (h : n ∈ names) : (tabulate names size).getD n 0 = size n := by
  apply getD_of_getElem?
  rw [getElem?_tabulate, if_pos h]

lemma Pattern.mem_of_side {p : Pattern} {side : Side} {n : String} (h : n ∈ (p.side side).names) :
    n ∈ p.input.names ∨ n ∈ p.output.names := by
  cases side with
  | input => exact .inl h
  | output => exact .inr h

/-- Sizes for a pattern, where the ellipsis covers a run, and the same sizes for the pattern in
which names stand in place of the ellipsis. -/
structure Pattern.SameSizes (names : List String) (p : Pattern) (run : Shape) (m m' : Sizes) :
    Prop where
  length : run.length = names.length
  bound : ∀ n, n ∈ m ↔ n ∈ p.input.names ∨ n ∈ p.output.names
  bound' : ∀ n, n ∈ m' ↔ n ∈ (p.spell names).input.names ∨ n ∈ (p.spell names).output.names
  same : ∀ side, ∀ a ∈ (p.side side).axes names.length,
    m'.ofAxis [] (a.spell names) = m.ofAxis run a

namespace Pattern.SameSizes

variable {names : List String} {kind : Kind} {p : Pattern} {shape run : Shape}
  {explicit : SizeList} {m m' : Sizes}

/-- The sizes of the covered axes are given to the names. -/
lemma exists_spelled (spelling : p.Spelling names) (len : run.length = names.length)
    (bound : ∀ n, n ∈ m ↔ n ∈ p.input.names ∨ n ∈ p.output.names) :
    ∃ m', p.SameSizes names run m m' := by
  let size (n : String) : Nat := if n ∈ names then run.getD (names.idxOf n) 0 else m.getD n 0
  let all := (p.spell names).input.names ++ (p.spell names).output.names
  have value (side : Side) {n : String} (hn : n ∈ Terms.names ((p.side side).spell names)) :
      (Sizes.tabulate all size).getD n 0 = size n := by
    rw [← p.side_spell] at hn
    exact Sizes.getD_tabulate (List.mem_append.mpr (mem_of_side hn))
  refine ⟨Sizes.tabulate all size, len, bound, fun n => ?_, fun side a ha => ?_⟩
  · rw [Sizes.mem_tabulate, List.mem_append]
  · cases a with
    | named n =>
      have old := Terms.named_mem_axes.mp ha
      have other : n ∉ names := fun new => spelling.fresh side n new old
      show (Sizes.tabulate all size).getD n 0 = m.getD n 0
      rw [value side (Terms.mem_names_spell.mpr (.inl old))]
      exact if_neg other
    | covered i =>
      obtain ⟨hi, some⟩ := Terms.covered_mem_axes.mp ha
      have new := List.getElem_mem hi
      show (Sizes.tabulate all size).getD (names.getD i "") 0 = run.getD i 0
      rw [List.getD_eq_getElem _ _ hi, value side (Terms.mem_names_spell.mpr (.inr ⟨new, some⟩))]
      show (if names[i] ∈ names then run.getD (names.idxOf names[i]) 0 else _) = _
      rw [if_pos new, spelling.distinct.idxOf_getElem i hi]

/-- The sizes of the names are given to the covered axes. -/
lemma exists_covered
    (bound' : ∀ n, n ∈ m' ↔ n ∈ (p.spell names).input.names ∨ n ∈ (p.spell names).output.names) :
    ∃ run m, p.SameSizes names run m m' := by
  let all := p.input.names ++ p.output.names
  refine ⟨names.map fun n => m'.getD n 0, Sizes.tabulate all fun n => m'.getD n 0,
    List.length_map _, fun n => ?_, bound', fun side a ha => ?_⟩
  · rw [Sizes.mem_tabulate, List.mem_append]
  · cases a with
    | named n =>
      have old := mem_of_side (Terms.named_mem_axes.mp ha)
      show m'.getD n 0 = (Sizes.tabulate all fun n => m'.getD n 0).getD n 0
      rw [Sizes.getD_tabulate (List.mem_append.mpr old)]
    | covered i =>
      obtain ⟨hi, -⟩ := Terms.covered_mem_axes.mp ha
      show m'.getD (names.getD i "") 0 = (names.map fun n => m'.getD n 0).getD i 0
      rw [List.getD_eq_getElem _ _ hi, List.getD_eq_getElem _ _ (by rwa [List.length_map]),
        List.getElem_map]

lemma axes_spell (side : Side) : ((p.spell names).side side).axes 0
    = ((p.side side).axes names.length).map (Axis.spell names) := by
  rw [p.side_spell]
  exact Terms.axes_spell _

lemma extents_eq (h : p.SameSizes names run m m') (side : Side) :
    ((p.spell names).side side).extents 0 (m'.ofAxis [])
      = (p.side side).extents run.length (m.ofAxis run) := by
  rw [p.side_spell, h.length]
  exact Terms.extents_spell (h.same side)

lemma getElem?_eq (h : p.SameSizes names run m m') {n : String} (hn : n ∈ m) : m'[n]? = m[n]? := by
  obtain ⟨side, old⟩ : ∃ side, n ∈ (p.side side).names := by
    rcases (h.bound n).mp hn with input | output
    · exact ⟨.input, input⟩
    · exact ⟨.output, output⟩
  have kept : n ∈ ((p.spell names).side side).names := by
    rw [p.side_spell]
    exact Terms.mem_names_spell.mpr (.inl old)
  obtain ⟨d, hd⟩ := Sizes.mem_iff.mp hn
  obtain ⟨d', hd'⟩ := Sizes.mem_iff.mp ((h.bound' n).mpr (mem_of_side kept))
  have same : m'.getD n 0 = m.getD n 0 := h.same side (.named n) (Terms.named_mem_axes.mpr old)
  rw [Sizes.getD_of_getElem? hd, Sizes.getD_of_getElem? hd'] at same
  rw [hd, hd', same]

lemma positive_iff (h : p.SameSizes names run m m') (side : Side) :
    (∀ a ∈ ((p.spell names).side side).axes 0, m'.ofAxis [] a ≠ 0)
      ↔ ∀ a ∈ (p.side side).axes run.length, m.ofAxis run a ≠ 0 := by
  rw [axes_spell, List.forall_mem_map, h.length]
  refine forall₂_congr fun a ha => ?_
  rw [h.same side a ha]

/-- The groups of a side without empty axes fit as well when they are spelled. -/
lemma fits_iff (h : p.SameSizes names run m m') (side : Side)
    (positive : ∀ a ∈ (p.side side).axes run.length, m.ofAxis run a ≠ 0) :
    ((p.spell names).side side).Fits m' [] ↔ (p.side side).Fits m run := by
  have positive' : ∀ a ∈ ((p.spell names).side side).axes ([] : Shape).length,
      m'.ofAxis [] a ≠ 0 := (h.positive_iff side).mpr positive
  rw [Terms.fits_iff positive, Terms.fits_iff positive', p.side_spell, Terms.groups_spell,
    List.forall_mem_map]
  refine forall₂_congr fun g hg => ?_
  have volume : Axis.volume (m'.ofAxis []) (Terms.axes ([] : Shape).length (Terms.spell names g.1))
      = Axis.volume (m.ofAxis run) (Terms.axes run.length g.1) := by
    rw [Terms.axes_spell, Axis.volume, Axis.volume, List.map_map, h.length]
    refine congrArg List.prod (List.map_congr_left fun a ha => ?_)
    exact h.same side a ((Terms.axes_sublist_of_group hg).subset ha)
  exact iff_of_eq (congrArg (· ≤ Shape.sizeLimit) volume)

lemma captured_spell (shape : Shape) : (p.spell names).input.captured shape = [] := by
  have closed : (p.spell names).input.isOpen = false :=
    Terms.isOpen_of_no_ellipsis (Terms.ellipses_spell names p.input)
  rw [Terms.captured, closed]
  rfl

lemma mem_of_unlisted (h : p.SameSizes names run m m') {n : String} (hn : n ∈ m')
    (unlisted : n ∉ names) : n ∈ m := by
  rw [h.bound]
  refine ((h.bound' n).mp hn).imp (fun hn => ?_) fun hn => ?_
  · exact (Terms.mem_names_spell.mp hn).resolve_right fun new => unlisted new.1
  · exact (Terms.mem_names_spell.mp hn).resolve_right fun new => unlisted new.1

lemma consistent_iff (h : p.SameSizes names run m m') (valid : p.Valid kind explicit.names)
    (spelling : p.Spelling names) (isOpen : p.input.isOpen = true)
    (unlisted : ∀ n ∈ names, n ∉ explicit.names) :
    (p.spell names).Consistent shape explicit m'
      ↔ p.Consistent shape explicit m ∧ p.input.captured shape = run := by
  have valid' := valid.spell spelling
  have input : (p.spell names).input.extents 0 (m'.ofAxis [])
      = p.input.extents run.length (m.ofAxis run) := h.extents_eq .input
  constructor
  · intro h'
    have faces : p.input.Faces m run (p.input.extents run.length (m.ofAxis run)) :=
      Terms.faces_extents (fun n hn => (h.bound n).mpr (.inl hn)) fun t ht =>
        valid.ellipses_of_single ht
    have input' := h'.input_eq valid'
    rw [captured_spell, List.length_nil, input] at input'
    rw [input'] at faces
    have captured := faces.captured_eq (valid.one_ellipsis .input) isOpen
    refine ⟨⟨h.bound, captured.symm ▸ faces, fun n size mem hn => ?_⟩, captured⟩
    rw [← h.getElem?_eq hn]
    apply h'.agrees n size mem
    exact Sizes.mem_iff.mpr (h.getElem?_eq hn ▸ Sizes.mem_iff.mp hn)
  · rintro ⟨consistent, rfl⟩
    have faces : (p.spell names).input.Faces m' []
        ((p.spell names).input.extents 0 (m'.ofAxis [])) :=
      Terms.faces_extents (fun n hn => (h.bound' n).mpr (.inl hn)) fun t ht =>
        valid'.ellipses_of_single ht
    rw [input, consistent.input_eq valid] at faces
    refine ⟨h.bound', (captured_spell shape).symm ▸ faces, fun n size mem hn => ?_⟩
    have other : n ∉ names := fun new => unlisted n new (SizeList.mem_names.mpr ⟨size, mem⟩)
    have old := h.mem_of_unlisted hn other
    rw [h.getElem?_eq old]
    exact consistent.agrees n size mem old

/-- The sizes solve the spelled pattern when they solve the pattern with the ellipsis. -/
theorem solvable_iff (h : p.SameSizes names run m m') (valid : p.Valid kind explicit.names)
    (spelling : p.Spelling names) (isOpen : p.input.isOpen = true)
    (unlisted : ∀ n ∈ names, n ∉ explicit.names) (positive : 0 ∉ shape) :
    (p.spell names).Solvable kind shape explicit m'
      ↔ p.Solvable kind shape explicit m ∧ p.input.captured shape = run := by
  have valid' := valid.spell spelling
  have determined :
      (p.spell names).input.DeterminedBy explicit ↔ p.input.DeterminedBy explicit := by
    refine forall₂_congr fun ms s => ?_
    rw [show Term.group ms s ∈ (p.spell names).input ↔ Term.group ms s ∈ p.input from
      Terms.group_mem_spell fun t ht => valid.ellipses_of_single ht]
  have consistent : (p.spell names).Consistent shape explicit m'
      ↔ p.Consistent shape explicit m ∧ p.input.captured shape = run :=
    h.consistent_iff valid spelling isOpen unlisted
  have output : (p.spell names).output.extents 0 (m'.ofAxis [])
      = p.output.extents run.length (m.ofAxis run) := h.extents_eq .output
  constructor
  · intro h'
    obtain ⟨found, rfl⟩ := consistent.mp h'.consistent
    have nonzero := h'.ofAxis_ne_zero valid' positive .output
    have fits := h'.fits
    have counted := h'.counted
    rw [captured_spell] at nonzero fits counted
    rw [List.length_nil, output] at counted
    exact ⟨⟨h'.positive, h'.agree, determined.mp h'.determined, found,
      (h.fits_iff .output ((h.positive_iff .output).mp nonzero)).mp fits, counted⟩, rfl⟩
  · rintro ⟨solvable, rfl⟩
    have nonzero := solvable.ofAxis_ne_zero valid positive .output
    refine ⟨solvable.positive, solvable.agree, determined.mpr solvable.determined,
      consistent.mpr ⟨solvable.consistent, rfl⟩, ?_, ?_⟩
    · rw [captured_spell]
      exact (h.fits_iff .output nonzero).mpr solvable.fits
    · rw [captured_spell, List.length_nil, output]
      exact solvable.counted

end Pattern.SameSizes

namespace Resolution

variable {names : List String} {kind : Kind} {p : Pattern} {shape : Shape} {explicit : SizeList}
  {r r' : Resolution}

section Spelled

variable (valid : p.Valid kind explicit.names) (spelling : p.Spelling names)
  (isOpen : p.input.isOpen = true) (unlisted : ∀ n ∈ names, n ∉ explicit.names)
  (positive : 0 ∉ shape)

include valid spelling isOpen unlisted positive

/-- A resolution with the ellipsis gives one with the names, with the same axes. -/
lemma exists_solve_spell (faced : shape.length = p.input.dimensions + names.length)
    (h : solve kind p shape explicit = .ok r) :
    ∃ r', solve kind (p.spell names) shape explicit = .ok r'
      ∧ r.Relabels (Axis.spell names) p (p.spell names) r' := by
  obtain ⟨solvable, covered, output⟩ := (solve_eq_ok valid).mp h
  have len : r.covered.length = names.length := by
    have rank := solvable.consistent.faces.length_eq (valid.one_ellipsis .input)
    rw [isOpen, if_pos rfl, ← covered, faced] at rank
    exact (Nat.add_left_cancel rank).symm
  obtain ⟨m', sizes⟩ :=
    Pattern.SameSizes.exists_spelled spelling len solvable.consistent.names
  have solvable' := (sizes.solvable_iff valid spelling isOpen unlisted positive).mpr
    ⟨solvable, covered.symm⟩
  refine ⟨⟨m', [], (p.spell names).output.extents 0 (m'.ofAxis [])⟩, ?_, ?_⟩
  · apply (solve_eq_ok (valid.spell spelling)).mpr
    exact ⟨solvable', (Pattern.SameSizes.captured_spell shape).symm, rfl⟩
  · refine ⟨fun side side' a ha b hb e => ?_, fun side => ?_, fun side a ha => ?_, ?_⟩
    · rw [axes, len] at ha hb
      exact Axis.spell_inj spelling.distinct (spelling.fresh side) (spelling.fresh side') ha hb e
    · rw [axes, axes, len]
      exact Pattern.SameSizes.axes_spell side
    · rw [axes, len] at ha
      exact sizes.same side a ha
    · rw [output]
      exact sizes.extents_eq .output

/-- A resolution with the names gives one with the ellipsis. -/
lemma exists_solve_of_spell (h : solve kind (p.spell names) shape explicit = .ok r') :
    ∃ r, solve kind p shape explicit = .ok r := by
  obtain ⟨solvable', -, -⟩ := (solve_eq_ok (valid.spell spelling)).mp h
  obtain ⟨run, m, sizes⟩ := Pattern.SameSizes.exists_covered solvable'.consistent.names
  obtain ⟨solvable, captured⟩ :=
    (sizes.solvable_iff valid spelling isOpen unlisted positive).mp solvable'
  refine ⟨⟨m, run, p.output.extents run.length (m.ofAxis run)⟩, ?_⟩
  exact (solve_eq_ok valid).mpr ⟨solvable, captured.symm, rfl⟩

end Spelled

end Resolution

lemma Pattern.checkGiven_spell {names given : List String} {p : Pattern}
    (unlisted : ∀ n ∈ names, n ∉ given) :
    (p.spell names).checkGiven given = .ok () ↔ p.checkGiven given = .ok () := by
  rw [checkGiven_eq_ok, checkGiven_eq_ok]
  refine forall₂_congr fun n hn => ?_
  have other : n ∉ names := fun new => unlisted n new hn
  have side (ts : Terms) : n ∈ Terms.names (ts.spell names) ↔ n ∈ Terms.names ts := by
    rw [Terms.mem_names_spell]
    exact or_iff_left fun new => other new.1
  rw [Pattern.names, Pattern.names, Name.mem_sorted, Name.mem_sorted, List.mem_append,
    List.mem_append]
  exact or_congr (side p.input) (side p.output)

namespace Operation

variable {α : Type} [Scalar α]

/-- An ellipsis that faces as many dimensions as there are fresh names can be spelled out. The
pattern stays valid, is resolved as before, and gives the same tensor on a shape without zeros. -/
theorem ellipsis_spelled (op : Operation) (p : Pattern) (names : List String) (shape : Shape)
    (explicit : SizeList) (valid : p.check op.kind explicit.names = .ok ())
    (ellipsis : p.input.hasEllipsis = true) (positive : 0 ∉ shape)
    (faced : shape.length = p.input.dimensions + names.length) (spelling : p.Spelling names)
    (unlisted : ∀ n ∈ names, n ∉ explicit.names) :
    (p.spell names).check op.kind explicit.names = .ok ()
      ∧ ∀ config,
        ((∃ r', Engine.resolve config op.kind shape explicit (p.spell names)
            = .ok (p.spell names, r'))
          ↔ ∃ r, Engine.resolve config op.kind shape explicit p = .ok (p, r))
        ∧ ∀ r r', Engine.resolve config op.kind shape explicit p = .ok (p, r) →
          Engine.resolve config op.kind shape explicit (p.spell names)
            = .ok (p.spell names, r') →
          r'.outputShape = r.outputShape
            ∧ op.outputShape (p.spell names) shape r' = op.outputShape p shape r
            ∧ ∀ x : Tensor α, x.shape = shape →
              ∃ y, op.apply config (Tensor.backend α) x p explicit = .ok y
                ∧ op.apply config (Tensor.backend α) x (p.spell names) explicit = .ok y := by
  have valid := Pattern.check_eq_ok.mp valid
  have valid' := valid.spell spelling
  have isOpen : p.input.isOpen = true := by
    by_contra closed
    have none := valid.ellipses_of_closed (Bool.eq_false_iff.mpr closed)
    rw [Terms.hasEllipsis, none] at ellipsis
    cases ellipsis
  have given : (p.spell names).checkGiven explicit.names = .ok ()
      ↔ p.checkGiven explicit.names = .ok () := Pattern.checkGiven_spell unlisted
  refine ⟨Pattern.check_eq_ok.mpr valid',
    fun config => ⟨⟨?_, ?_⟩, fun r r' resolved resolved' => ?_⟩⟩
  · rintro ⟨r', resolved'⟩
    obtain ⟨-, -, allowed, solved'⟩ := Engine.resolve_eq_ok.mp resolved'
    obtain ⟨r, solved⟩ :=
      Resolution.exists_solve_of_spell valid spelling isOpen unlisted positive solved'
    exact ⟨r, Engine.resolve_eq_ok.mpr
      ⟨rfl, valid, fun strict => given.mp (allowed strict), solved⟩⟩
  · rintro ⟨r, resolved⟩
    obtain ⟨-, -, allowed, solved⟩ := Engine.resolve_eq_ok.mp resolved
    obtain ⟨r', solved', -⟩ :=
      Resolution.exists_solve_spell valid spelling isOpen unlisted positive faced solved
    exact ⟨r', Engine.resolve_eq_ok.mpr
      ⟨rfl, valid', fun strict => given.mpr (allowed strict), solved'⟩⟩
  · obtain ⟨-, -, -, solved⟩ := Engine.resolve_eq_ok.mp resolved
    obtain ⟨-, -, -, solved'⟩ := Engine.resolve_eq_ok.mp resolved'
    obtain ⟨found, solved'', relabels⟩ :=
      Resolution.exists_solve_spell valid spelling isOpen unlisted positive faced solved
    obtain rfl : r' = found := Except.ok.inj (solved'.symm.trans solved'')
    have suits := Resolution.suits_of_solve valid solved
    have suits' := Resolution.suits_of_solve valid' solved'
    refine ⟨relabels.outputShape, outputShape_relabelled relabels suits suits', fun x shaped => ?_⟩
    subst shaped
    obtain ⟨y, ran⟩ := exists_run suits positive
    have same : op.run (Tensor.backend α) x (p.spell names) r' = op.run (Tensor.backend α) x p r :=
      run_relabelled relabels suits suits'
    refine ⟨y, ?_, ?_⟩
    · exact (apply_eq_run resolved).trans ran
    · exact (apply_eq_run resolved').trans (same.trans ran)

/-- The last axis is reduced, and those before it, which are not named, become one. -/
def flatteningPattern : Pattern :=
  .ofSides [.ellipsis .nowhere, .name "c" .nowhere] [.group [.ellipsis .nowhere] .nowhere]

/-- The rows of two matrices are added up, with and without names for the first two axes. -/
theorem ellipsis_spelled_rows :
    ∃ y, (reduce .sum true).apply .standard (Tensor.backend Float) (.ofFn [2, 3, 4] Float.ofNat)
        flatteningPattern [] = .ok y
      ∧ (reduce .sum true).apply .standard (Tensor.backend Float) (.ofFn [2, 3, 4] Float.ofNat)
        (flatteningPattern.spell ["a", "b"]) [] = .ok y := by
  have spelling : flatteningPattern.Spelling ["a", "b"] := by
    refine ⟨by decide +kernel, by decide +kernel, fun side => ?_, nofun⟩
    cases side with
    | input => decide +kernel
    | output => decide +kernel
  obtain ⟨-, agree⟩ := @ellipsis_spelled Float _ (reduce .sum true) flatteningPattern ["a", "b"]
    [2, 3, 4] [] (by decide +kernel) (by decide +kernel) (by decide +kernel) (by decide +kernel)
    spelling (by decide +kernel)
  obtain ⟨resolves, same⟩ := agree .standard
  have shape : (Engine.resolve .standard .reducing [2, 3, 4] [] flatteningPattern).map
      (·.2.outputShape) = .ok [6] := by decide +kernel
  obtain ⟨⟨q, r⟩, resolved, -⟩ := map_eq_ok.mp shape
  obtain ⟨rfl, -⟩ := Engine.resolve_eq_ok.mp resolved
  obtain ⟨r', resolved'⟩ := resolves.mpr ⟨r, resolved⟩
  obtain ⟨-, -, given⟩ := same r r' resolved resolved'
  exact given (.ofFn [2, 3, 4] Float.ofNat) rfl

end Operation

end AxisNotation
