import AxisNotation.Proofs.Renaming.Solver
import AxisNotation.Proofs.Resolution.Failure
import AxisNotation.Proofs.Shortcut

/-!
# Planning with renamed patterns

A plan is made from the positions and sizes of axes, which are the same for a pattern that resembles
the pattern, and the renamed sizes. So the plans are the same but for the resolution that they keep
(`Pattern.Resembles.alike_rearrange`), and in all a renaming makes no difference to an operation
(`Plan.renaming_invisible`).
-/

namespace AxisNotation

variable {f : String → String} {all : List String} {p p' : Pattern} {r r' : Resolution}
  {shape : Shape} {pattern pattern' : String}

/-! ## Positions and sizes of renamed axes -/

lemma Axis.injOn_rename (inj : Set.InjOn f {n | n ∈ all}) {axes : List Axis}
    (inside : ∀ n, .named n ∈ axes → n ∈ all) : Set.InjOn (rename f) {a | a ∈ axes} := by
  intro a ha b hb e
  cases a with
  | named n =>
    cases b with
    | named n' => exact congrArg named (inj (inside n ha) (inside n' hb) (named.inj e))
    | covered i => cases e
  | covered i =>
    cases b with
    | named n => cases e
    | covered i' => exact congrArg covered (covered.inj e)

lemma Axis.alike_positions {axes targets : List Axis}
    (inj : Set.InjOn (rename f) {a | a ∈ axes ++ targets}) :
    Outcome.Alike Eq (positions pattern axes targets)
      (positions pattern' (axes.map (rename f)) (targets.map (rename f))) := by
  refine Outcome.alike_mapM fun b hb => ?_
  have first : ∀ a ∈ axes, rename f a = rename f b → a = b := fun a ha =>
    inj (List.mem_append_left _ ha) (List.mem_append_right _ hb)
  rw [idxOf?_map first]
  exact Outcome.alike_orReject rfl

lemma Resolution.Corresponds.alike_axisSizes (h : r.Corresponds f all r') {axes : List Axis}
    (inside : ∀ n, .named n ∈ axes → n ∈ all) :
    Outcome.Alike Eq (r.axisSizes pattern axes)
      (r'.axisSizes pattern' (axes.map (Axis.rename f))) := by
  refine Outcome.alike_mapM fun a ha => ?_
  cases a with
  | named n =>
    rw [Axis.rename, axisSize, axisSize, h.sizes.same n (inside n ha)]
    exact Outcome.alike_orReject rfl
  | covered i =>
    rw [Axis.rename, axisSize, axisSize, h.covered]
    exact Outcome.alike_orReject rfl

lemma Resolution.Corresponds.renames (h : r.Corresponds f all r') : r.Renames f r' :=
  ⟨h.sizes.renames, h.covered, h.outputShape⟩

/-! ## The plans -/

namespace Plan

/-- Plans that differ only in the names of the axes that their resolutions are about. -/
def Rearrange.Renames (f : String → String) (plan plan' : Rearrange) : Prop :=
  plan.resolution.Renames f plan'.resolution
    ∧ plan' = { plan with resolution := plan'.resolution }

/-- Plans that differ only in the names of the axes that their resolutions are about. -/
def Reduce.Renames (f : String → String) (plan plan' : Reduce) : Prop :=
  plan.resolution.Renames f plan'.resolution
    ∧ plan' = { plan with resolution := plan'.resolution }

/-- Plans that differ only in the names of the axes that their resolutions are about. -/
def Repeat.Renames (f : String → String) (plan plan' : Repeat) : Prop :=
  plan.resolution.Renames f plan'.resolution
    ∧ plan' = { plan with resolution := plan'.resolution }

section Axes

variable (inj : Set.InjOn f {n | n ∈ all}) (inside : p.names ⊆ all)

include inside in
lemma named_mem_of_side (side : Side) (width : Nat) :
    ∀ n, .named n ∈ (p.side side).axes width → n ∈ all := fun _ h =>
  Pattern.side_names_subset inside side (Terms.named_mem_axes.mp h)

include inj inside

lemma injOn_axes (width : Nat) :
    Set.InjOn (Axis.rename f) {a | a ∈ p.input.axes width ++ p.output.axes width} := by
  refine Axis.injOn_rename inj fun n hn => ?_
  rcases List.mem_append.mp hn with hn | hn
  · exact named_mem_of_side inside .input width n hn
  · exact named_mem_of_side inside .output width n hn

end Axes

end Plan

namespace Pattern.Resembles

open Plan

variable (resembles : p.Resembles f p') (inj : Set.InjOn f {n | n ∈ all}) (inside : p.names ⊆ all)

include resembles inj inside

/-- A shortcut is found by positions, which renaming keeps. -/
lemma permutation?_eq : p'.permutation? = p.permutation? := by
  rw [Pattern.permutation?, Pattern.permutation?, resembles.input.plainNames?,
    resembles.output.plainNames?]
  cases input : p.input.plainNames? with
  | none => rfl
  | some ins =>
    cases output : p.output.plainNames? with
    | none => rfl
    | some outs =>
      obtain ⟨-, rfl⟩ := Terms.plainNames?_eq_some.mp input
      obtain ⟨-, rfl⟩ := Terms.plainNames?_eq_some.mp output
      have found : (p.output.names.map f).filterMap (p.input.names.map f).idxOf?
          = p.output.names.filterMap p.input.names.idxOf? := by
        rw [List.filterMap_map]
        refine List.filterMap_congr fun n hn => idxOf?_map fun m hm => ?_
        exact inj (Pattern.side_names_subset inside .input hm)
          (Pattern.side_names_subset inside .output hn)
      simp only [Option.map_some, Option.bind_eq_bind, Option.bind_some, List.length_map, found]

variable (h : r.Corresponds f all r')

include h

lemma alike_generalSteps :
    Outcome.Alike Eq (generalSteps p shape r) (generalSteps p' shape r') := by
  rw [generalSteps, generalSteps, h.covered, h.outputShape, resembles.input.axes,
    resembles.output.axes]
  refine .bind_same (h.alike_axisSizes (named_mem_of_side inside .input _)) fun sizes => ?_
  exact .bind_same (Axis.alike_positions (injOn_axes inj inside _)) fun positions => .refl _

lemma alike_rearrange : Outcome.Alike (Rearrange.Renames f) (Rearrange.ofPattern p shape r)
    (Rearrange.ofPattern p' shape r') := by
  have steps : Outcome.Alike Eq (rearrangeSteps p shape r) (rearrangeSteps p' shape r') := by
    rw [rearrangeSteps, rearrangeSteps, Shortcut.ofPattern?, Shortcut.ofPattern?,
      resembles.permutation?_eq inj inside]
    split
    · exact .ok rfl
    · exact .bind_same (resembles.alike_generalSteps inj inside h) fun steps => .ok rfl
  exact .bind_same steps fun steps => .ok ⟨h.renames, rfl⟩

lemma alike_reduce (reduction : Reduction) (keep : Bool) :
    Outcome.Alike (Reduce.Renames f) (Reduce.ofPattern p shape r reduction keep)
      (Reduce.ofPattern p' shape r' reduction keep) := by
  have both := injOn_axes inj inside r.covered.length
  have reduced : ((p.input.axes r.covered.length).map (Axis.rename f)).filter
        (fun a => a ∉ (p.output.axes r.covered.length).map (Axis.rename f))
      = ((p.input.axes r.covered.length).filter
        fun a => a ∉ p.output.axes r.covered.length).map (Axis.rename f) := by
    refine filter_map_eq fun a ha => decide_eq_decide.mpr (not_congr ?_)
    exact mem_map_of_injOn both (List.subset_append_right _ _) (List.mem_append_left _ ha)
  rw [Reduce.ofPattern, Reduce.ofPattern, h.covered, h.outputShape, resembles.input.axes,
    resembles.output.axes, reduced, ← List.map_append, List.length_map, List.length_map]
  refine .bind_same (h.alike_axisSizes (named_mem_of_side inside .input _)) fun sizes => ?_
  refine .bind_same (Axis.alike_positions (both.mono fun a ha => ?_)) fun positions => ?_
  · rcases List.mem_append.mp ha with input | ordered
    · exact List.mem_append_left _ input
    · rcases List.mem_append.mp ordered with output | reduced
      · exact List.mem_append_right _ output
      · exact List.mem_append_left _ (List.mem_of_mem_filter reduced)
  refine .bind_same (.refl _) fun draft => ?_
  -- the collapsed shape is found in one of three ways, none of which looks at names
  dsimp only
  split
  · exact .ok ⟨h.renames, rfl⟩
  · split
    · exact .bind_same (.refl _) fun collapsed => .ok ⟨h.renames, rfl⟩
    · exact .ok ⟨h.renames, rfl⟩

lemma alike_repeat : Outcome.Alike (Repeat.Renames f) (Repeat.ofPattern p shape r)
    (Repeat.ofPattern p' shape r') := by
  have both := injOn_axes inj inside r.covered.length
  have known : ∀ a ∈ p.output.axes r.covered.length,
      Axis.rename f a ∈ (p.input.axes r.covered.length).map (Axis.rename f)
        ↔ a ∈ p.input.axes r.covered.length := fun a ha =>
    mem_map_of_injOn both (List.subset_append_left _ _) (List.mem_append_right _ ha)
  have carried : ((p.output.axes r.covered.length).map (Axis.rename f)).filter
        (fun a => a ∈ (p.input.axes r.covered.length).map (Axis.rename f))
      = ((p.output.axes r.covered.length).filter
        fun a => a ∈ p.input.axes r.covered.length).map (Axis.rename f) :=
    filter_map_eq fun a ha => decide_eq_decide.mpr (known a ha)
  have slotted (full : Shape) : List.zipWith
        (fun a size => if a ∈ (p.input.axes r.covered.length).map (Axis.rename f) then size else 1)
        ((p.output.axes r.covered.length).map (Axis.rename f)) full
      = List.zipWith (fun a size => if a ∈ p.input.axes r.covered.length then size else 1)
        (p.output.axes r.covered.length) full :=
    zipWith_map_eq fun a ha => funext fun size => if_congr (known a ha) rfl rfl
  rw [Repeat.ofPattern, Repeat.ofPattern, h.covered, h.outputShape, resembles.input.axes,
    resembles.output.axes, carried, List.length_map, List.length_map]
  refine .bind_same (h.alike_axisSizes (named_mem_of_side inside .output _)) fun full => ?_
  rw [slotted]
  refine .bind_same (h.alike_axisSizes (named_mem_of_side inside .input _)) fun sizes => ?_
  refine .bind_same (Axis.alike_positions (both.mono fun a ha => ?_)) fun positions => ?_
  · rcases List.mem_append.mp ha with input | carried
    · exact List.mem_append_left _ input
    · exact List.mem_append_right _ (List.mem_of_mem_filter carried)
  exact .bind_same (.refl _) fun draft => .ok ⟨h.renames, rfl⟩

end Pattern.Resembles

namespace Plan

section Plans

variable (h : r.Corresponds f all r') (renamed : p.Renames f p')
  (inj : Set.InjOn f {n | n ∈ all}) (inside : p.names ⊆ all)

include h renamed inj inside

lemma alike_rearrange : Outcome.Alike (Rearrange.Renames f) (Rearrange.ofPattern p shape r)
    (Rearrange.ofPattern p' shape r') :=
  renamed.resembles.alike_rearrange inj inside h

lemma alike_reduce (reduction : Reduction) (keep : Bool) :
    Outcome.Alike (Reduce.Renames f) (Reduce.ofPattern p shape r reduction keep)
      (Reduce.ofPattern p' shape r' reduction keep) :=
  renamed.resembles.alike_reduce inj inside h reduction keep

lemma alike_repeat : Outcome.Alike (Repeat.Renames f) (Repeat.ofPattern p shape r)
    (Repeat.ofPattern p' shape r') :=
  renamed.resembles.alike_repeat inj inside h

end Plans

/-- Axis names matter only up to renaming. A pattern and the renamed pattern pass the check for a
kind of operation or fail it, are resolved with the renamed sizes or are not, and are planned in the
same way or are not, and where both fail they fail at the same stage. -/
theorem renaming_invisible {explicit : SizeList} (renamed : p.Renames f p')
    (faithful : Renaming f (p.names ++ explicit.names)) (kind : Kind) (shape : Shape) :
    (Outcome.ofPattern (p.check kind explicit.names)).Alike Eq
      (Outcome.ofPattern (p'.check kind (explicit.rename f).names))
    ∧ (Outcome.ofPattern (p.checkGiven explicit.names)).Alike Eq
      (Outcome.ofPattern (p'.checkGiven (explicit.rename f).names))
    ∧ (Resolution.solve kind p shape explicit).Alike (Resolution.Renames f)
      (Resolution.solve kind p' shape (explicit.rename f))
    ∧ ∀ r r', Resolution.solve kind p shape explicit = .ok r →
      Resolution.solve kind p' shape (explicit.rename f) = .ok r' →
      (Rearrange.ofPattern p shape r).Alike (Rearrange.Renames f) (Rearrange.ofPattern p' shape r')
      ∧ (∀ reduction keep, (Reduce.ofPattern p shape r reduction keep).Alike (Reduce.Renames f)
        (Reduce.ofPattern p' shape r' reduction keep))
      ∧ (Repeat.ofPattern p shape r).Alike (Repeat.Renames f) (Repeat.ofPattern p' shape r') := by
  have inj := faithful.injective
  have inside : p.names ⊆ p.names ++ explicit.names := List.subset_append_left _ _
  have listed : explicit.names ⊆ p.names ++ explicit.names := List.subset_append_right _ _
  have names : (explicit.rename f).names = explicit.names.map f := by
    rw [SizeList.rename, SizeList.names, SizeList.names, List.map_map, List.map_map]
    rfl
  have solved : Outcome.Alike (Resolution.Corresponds f _) (Resolution.solve kind p shape explicit)
      (Resolution.solve kind p' shape (explicit.rename f)) :=
    Resolution.alike_solve renamed inj inside listed
  rw [names]
  refine ⟨renamed.alike_check faithful inside listed,
    renamed.alike_checkGiven faithful inside listed, solved.mono fun _ _ h => h.renames,
    fun r r' ok ok' => ?_⟩
  rw [ok, ok'] at solved
  cases solved with
  | ok h =>
    exact ⟨alike_rearrange h renamed inj inside,
      fun reduction keep => alike_reduce h renamed inj inside reduction keep,
      alike_repeat h renamed inj inside⟩

open Resolution

/-- The pattern that splits an axis, with its two names exchanged. -/
def exchangedPattern : Pattern :=
  .ofSides [.group [.name "w" .nowhere, .name "h" .nowhere] .nowhere]
    [.name "h" .nowhere, .name "w" .nowhere]

lemma renames_exchanged : splitPattern.Renames (Equiv.swap "h" "w") exchangedPattern := by
  have h {s s' : Span} : Term.Renames (Equiv.swap "h" "w") (.name "h" s) (.name "w" s') := by
    conv => arg 3; rw [← Equiv.swap_apply_left "h" "w"]
    exact .name
  have w {s s' : Span} : Term.Renames (Equiv.swap "h" "w") (.name "w" s) (.name "h" s') := by
    conv => arg 3; rw [← Equiv.swap_apply_right "h" "w"]
    exact .name
  exact ⟨.cons (.group (.cons h (.cons w .nil))) .nil, .cons w (.cons h .nil)⟩

/-- Two names are exchanged in a pattern and in the explicit sizes. -/
theorem renaming_invisible_exchange :
    ∃ r r' plan plan', solve .rearranging splitPattern [6] [("h", 2)] = .ok r
      ∧ solve .rearranging exchangedPattern [6] [("w", 2)] = .ok r'
      ∧ r.Renames (Equiv.swap "h" "w") r'
      ∧ Rearrange.ofPattern splitPattern [6] r = .ok plan
      ∧ Rearrange.ofPattern exchangedPattern [6] r' = .ok plan' ∧ plan'.steps = plan.steps := by
  have faithful : Renaming (Equiv.swap "h" "w")
      (splitPattern.names ++ SizeList.names [("h", 2)]) := by
    have all : splitPattern.names ++ SizeList.names [("h", 2)] = ["h", "w", "h"] := by
      decide +kernel
    have legal : Name.isLegal "h" = true ∧ Name.isLegal "w" = true := by decide +kernel
    refine ⟨(Equiv.injective _).injOn, ?_, ?_⟩
    · simp [all, legal]
    · simp [all, legal]
  have listed : SizeList.rename (Equiv.swap "h" "w") [("h", 2)] = [("w", 2)] := by
    rw [SizeList.rename, List.map_singleton, Equiv.swap_apply_left]
  obtain ⟨-, -, solved, planned⟩ :=
    renaming_invisible renames_exchanged faithful .rearranging [6]
  rw [listed] at solved planned
  have made : (solve .rearranging splitPattern [6] [("h", 2)] >>= fun r =>
      Rearrange.ofPattern splitPattern [6] r).map (·.steps)
      = .ok [.reshape [2, 3], .permute [1, 0]] := by decide +kernel
  obtain ⟨plan, both, -⟩ := map_eq_ok.mp made
  obtain ⟨r, found, made⟩ := bind_eq_ok.mp both
  obtain ⟨r', found', same⟩ := solved.exists_ok found
  obtain ⟨plan', made', -, plans⟩ := (planned r r' found found').1.exists_ok made
  exact ⟨r, r', plan, plan', found, found', same, made, made', by rw [plans]⟩

end Plan

end AxisNotation
