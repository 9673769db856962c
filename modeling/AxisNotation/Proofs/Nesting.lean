import AxisNotation.Proofs.Renaming.Plans
import AxisNotation.Proofs.Resolution.Refusal

/-!
# Groups inside groups

A group that is a member of a group can be replaced by its members (`Term.Unnests`). The axes under
a term stay the same, so a side resembles the one that it was made from. Without empty axes a group
of the output has a size exactly when its volume is within the limit, in whatever order the sizes
are multiplied, and so patterns that resemble each other with the same names have the same
resolutions and plans. In all, nesting inside a group is immaterial (`Plan.nesting_immaterial`).
-/

namespace AxisNotation

/-- In a term, a group that is a member of a group is replaced by its members. -/
inductive Term.Unnests : Term → Term → Prop where
  | splice (before inner after : Terms) (s s' : Span) :
      Term.Unnests (.group (before ++ .group inner s' :: after) s)
        (.group (before ++ inner ++ after) s)
  | inside (before after : Terms) (s : Span) {t t' : Term} :
      Term.Unnests t t' →
      Term.Unnests (.group (before ++ t :: after) s) (.group (before ++ t' :: after) s)

/-- In one of the terms, a group that is a member of a group is replaced by its members. -/
inductive Terms.Unnests : Terms → Terms → Prop where
  | term (before after : Terms) {t t' : Term} :
      Term.Unnests t t' → Terms.Unnests (before ++ t :: after) (before ++ t' :: after)

/-- On both sides, groups inside groups are replaced by their members, any number of times. -/
structure Pattern.Unnests (p q : Pattern) : Prop where
  input : Relation.ReflTransGen Terms.Unnests p.input q.input
  output : Relation.ReflTransGen Terms.Unnests p.output q.output

variable {t t' : Term} {ts ts' : Terms} {p q : Pattern}

/-! ## Unnesting -/

lemma Term.Unnests.axes_eq (h : t.Unnests t') (width : Nat) : t'.axes width = t.axes width := by
  induction h with
  | splice before inner after s s' =>
    rw [Term.axes, Term.axes, Terms.axes_append, Terms.axes_append, Terms.axes_append, Terms.axes,
      Term.axes, List.append_assoc]
  | inside before after s _ ih =>
    rw [Term.axes, Term.axes, Terms.axes_append, Terms.axes_append, Terms.axes, Terms.axes, ih]

lemma Term.Unnests.resembles (h : t.Unnests t') : t.Resembles id t' := by
  have axes := h.axes_eq
  cases h with
  | splice => exact .of_axes _ _ axes
  | inside => exact .of_axes _ _ axes

lemma Terms.Unnests.resembles (h : ts.Unnests ts') : ts.Resembles id ts' := by
  cases h with
  | term before after step =>
    exact List.rel_append (Resembles.refl before) (.cons step.resembles (Resembles.refl after))

/-- Sides resemble each other when one is made from the other by unnesting. -/
lemma Terms.resembles_of_unnests (h : Relation.ReflTransGen Terms.Unnests ts ts') :
    ts.Resembles id ts' := by
  induction h with
  | refl => exact .refl ts
  | tail _ step ih => exact ih.trans step.resembles

lemma Pattern.Unnests.resembles (h : p.Unnests q) : p.Resembles id q :=
  ⟨Terms.resembles_of_unnests h.input, Terms.resembles_of_unnests h.output⟩

section Groups

variable {P : Terms → Prop}
  (splice : ∀ before inner after s, P (before ++ .group inner s :: after) → P inner →
    P (before ++ inner ++ after))
  (inside : ∀ before after (t t' : Term), t'.isEllipsis = t.isEllipsis →
    P (before ++ t :: after) → P (before ++ t' :: after))

include splice inside

/-- A property that all groups of a term have is kept, if splicing a group that has it into another
one does not lose it and a group has it whatever other groups are inside. -/
lemma Term.Unnests.forall_groups (h : t.Unnests t') (all : ∀ g ∈ t.groups, P g.1) :
    ∀ g ∈ t'.groups, P g.1 := by
  induction h with
  | splice before inner after s s' =>
    simp only [Term.groups, Terms.groups, Terms.groups_append, List.forall_mem_append,
      List.forall_mem_singleton] at all ⊢
    obtain ⟨⟨first, ⟨members, group⟩, last⟩, outer⟩ := all
    exact ⟨⟨⟨first, members⟩, last⟩, splice _ _ _ _ outer group⟩
  | inside before after s step ih =>
    simp only [Term.groups, Terms.groups, Terms.groups_append, List.forall_mem_append,
      List.forall_mem_singleton] at all ⊢
    obtain ⟨⟨first, member, last⟩, outer⟩ := all
    exact ⟨⟨first, ih member, last⟩, inside _ _ _ _ step.resembles.isEllipsis outer⟩

lemma Terms.forall_groups_of_unnests (h : Relation.ReflTransGen Terms.Unnests ts ts')
    (all : ∀ g ∈ Terms.groups ts, P g.1) : ∀ g ∈ Terms.groups ts', P g.1 := by
  induction h with
  | refl => exact all
  | tail _ step ih =>
    cases step with
    | term before after step =>
      rw [Terms.groups_append, Terms.groups, List.forall_mem_append, List.forall_mem_append] at ih ⊢
      exact ⟨ih.1, step.forall_groups splice inside ih.2.1, ih.2.2⟩

end Groups

namespace Terms

lemma hasEmptyGroup_of_unnests (h : Relation.ReflTransGen Terms.Unnests ts ts')
    (none : ts.hasEmptyGroup = false) : ts'.hasEmptyGroup = false := by
  simp only [hasEmptyGroup, List.any_eq_false, List.isEmpty_iff] at none ⊢
  refine forall_groups_of_unnests (P := (· ≠ [])) ?_ ?_ h none
  · intro before inner after _ _ some
    exact List.append_ne_nil_of_left_ne_nil (List.append_ne_nil_of_right_ne_nil _ some) _
  · intro before after _ _ _ _
    exact List.append_ne_nil_of_right_ne_nil _ (List.cons_ne_nil _ _)

lemma hasOpenGroup_of_unnests (h : Relation.ReflTransGen Terms.Unnests ts ts')
    (none : ts.hasOpenGroup = false) : ts'.hasOpenGroup = false := by
  simp only [hasOpenGroup, List.any_eq_false] at none ⊢
  refine forall_groups_of_unnests (P := fun ms => ¬ isOpen ms = true) ?_ ?_ h none
  · intro before inner after _ outer closed
    simp only [isOpen, List.any_append, List.any_cons, Bool.or_eq_true, not_or] at outer closed ⊢
    exact ⟨⟨outer.1, closed⟩, outer.2.2⟩
  · intro before after _ _ same outer
    simp only [isOpen, List.any_append, List.any_cons, same] at outer ⊢
    exact outer

end Terms

namespace Pattern.Unnests

variable {kind : Kind} {given : List String}

/-- A valid pattern stays valid. -/
lemma valid (h : p.Unnests q) (valid : p.Valid kind given) : q.Valid kind given := by
  have same := h.resembles
  have namesMatch : q.NamesMatch (given.map id) kind ↔ p.NamesMatch given kind := by
    have inj : Set.InjOn id {n | n ∈ p.names ++ given} := Set.injOn_id _
    exact same.namesMatch inj (List.subset_append_left _ _) (List.subset_append_right _ _)
  rw [List.map_id] at namesMatch
  refine valid.transfer ?_ (fun side => (same.side side).ellipses.symm) (fun side => ?_)
    (Terms.hasOpenGroup_of_unnests h.input) namesMatch.mpr fun side => ?_
  · rw [same.input.names_eq, same.output.names_eq]
    exact valid.legal
  · cases side with
    | input => exact Terms.hasEmptyGroup_of_unnests h.input
    | output => exact Terms.hasEmptyGroup_of_unnests h.output
  · rw [(same.side side).names_eq]
    exact id

end Pattern.Unnests

/-! ## The same resolutions -/

section Sizes

variable {m m' : Sizes} {b b' : Binding} {r r' : Resolution} {run : Shape} {all : List String}

lemma Sizes.Renames.eq (h : m.Renames id m') : m' = m :=
  Std.ExtTreeMap.ext_getElem? fun n => Option.ext fun k => (h n k).trans (by simp)

lemma Binding.Corresponds.eq (h : b.Corresponds id all b') : b' = b := by
  obtain ⟨sizes, covered⟩ := b
  obtain ⟨sizes', covered'⟩ := b'
  obtain rfl : covered' = covered := h.covered
  obtain rfl : sizes' = sizes := h.sizes.renames.eq
  rfl

lemma Resolution.Corresponds.refl (inside : ∀ n ∈ r.sizes, n ∈ all) : r.Corresponds id all r where
  sizes := ⟨fun _ _ => rfl, inside, fun n hn => List.mem_map.mpr ⟨n, inside n hn, rfl⟩⟩
  covered := rfl
  outputShape := rfl

lemma Resolution.Renames.eq (h : r.Renames id r') : r' = r := by
  obtain ⟨sizes, covered, output⟩ := r
  obtain ⟨sizes', covered', output'⟩ := r'
  obtain rfl : covered' = covered := h.covered
  obtain rfl : output' = output := h.outputShape
  obtain rfl : sizes' = sizes := h.sizes.eq
  rfl

lemma Terms.Resembles.extents_eq (h : ts.Resembles id ts') (width : Nat) (size : Axis → Nat) :
    Terms.extents width size ts' = Terms.extents width size ts := by
  induction h with
  | nil => rfl
  | @cons t t' ts ts' first _ ih =>
    have first : t'.extents width size = t.extents width size := by
      have axes := first.axes_eq width
      cases first with
      | group => exact congrArg (fun axes => [Axis.volume size axes]) axes
      | _ => rfl
    exact congrArg₂ (· ++ ·) first ih

/-- Without empty axes it does not matter which groups are inside a group that fits. -/
lemma Terms.Resembles.fits_iff (h : ts.Resembles id ts')
    (positive : ∀ a ∈ Terms.axes run.length ts, m.ofAxis run a ≠ 0) :
    Terms.Fits m run ts' ↔ Terms.Fits m run ts := by
  induction h with
  | nil => exact Iff.rfl
  | @cons t t' ts ts' first _ ih =>
    obtain ⟨positive_t, positive_ts⟩ := List.forall_mem_append.mp positive
    rw [Terms.Fits, Terms.Fits, Terms.groups, Terms.groups, List.forall_mem_append,
      List.forall_mem_append]
    refine and_congr ?_ (ih positive_ts)
    have axes := first.axes_eq run.length
    cases first with
    | group =>
      rw [Term.axes, Term.axes] at axes
      rw [Terms.group_fits_iff positive_t, Terms.group_fits_iff (axes ▸ positive_t), axes]
    | _ => exact Iff.rfl

end Sizes

namespace Resolution

variable {kind : Kind} {shape : Shape} {explicit : SizeList} {given : List String} {b : Binding}
  {pattern pattern' : String}

lemma alike_shapeOf_of_resembles (h : ts.Resembles id ts')
    (bound : ∀ n ∈ Terms.names ts, n ∈ b.sizes)
    (positive : ∀ a ∈ Terms.axes b.covered.length ts, b.sizes.ofAxis b.covered a ≠ 0) :
    (shapeOf pattern b ts).Alike Eq (shapeOf pattern' b ts') := by
  have bound' : ∀ n ∈ Terms.names ts', n ∈ b.sizes := h.names_eq ▸ bound
  refine (refuses_shapeOf bound).alike (refuses_shapeOf bound') fun shape => ?_
  rw [shapeOf_eq_ok bound, shapeOf_eq_ok bound', h.fits_iff positive, h.extents_eq]

/-- On a shape without zeros, patterns that resemble each other with the same names have the same
resolution or are refused at the same stage. -/
lemma alike_solve_of_resembles (valid : p.Valid kind given) (h : p.Resembles id q)
    (positive : 0 ∉ shape) :
    (solve kind p shape explicit).Alike Eq (solve kind q shape explicit) := by
  let all := p.names ++ explicit.names
  have inj : Set.InjOn id {n | n ∈ all} := Set.injOn_id _
  have collected : (collect p.text ∅ explicit).Alike (Sizes.Corresponds id all)
      (collect q.text ∅ (explicit.rename id)) :=
    alike_collect inj (List.subset_append_right _ _) .empty
  rw [SizeList.rename_id] at collected
  rw [solve_eq, solve_eq]
  refine collected.bind_of_ok fun known known' collected hk => ?_
  refine (alike_bindAll inj hk h (List.subset_append_left _ _)).bind_of_ok fun b b' bound hb => ?_
  obtain rfl : b = b' := hb.eq.symm
  -- what is bound leaves no axis of the output empty
  have listed := collected_listed collected
  have valid := valid_of_bindAll valid listed bound
  obtain ⟨consistent, covered, -⟩ := bindAll_sound valid listed bound
  have nonempty := consistent.ofAxis_ne_zero valid (collect_sound collected).1 positive .output
  rw [← covered] at nonempty
  have sized (n : String) (hn : n ∈ p.output.names) : n ∈ b.sizes :=
    (consistent.names n).mpr (.inr hn)
  refine .bind_same (alike_shapeOf_of_resembles h.output sized nonempty) fun output => ?_
  split
  · exact .bind_same (alike_conserve shape output) fun _ => .ok rfl
  · exact .ok rfl

end Resolution

/-! ## The same plans -/

namespace Plan

lemma Rearrange.Renames.eq {plan plan' : Rearrange} (h : plan.Renames id plan') : plan = plan' := by
  obtain ⟨same, rest⟩ := h
  rw [rest, same.eq]

lemma Reduce.Renames.eq {plan plan' : Reduce} (h : plan.Renames id plan') : plan = plan' := by
  obtain ⟨same, rest⟩ := h
  rw [rest, same.eq]

lemma Repeat.Renames.eq {plan plan' : Repeat} (h : plan.Renames id plan') : plan = plan' := by
  obtain ⟨same, rest⟩ := h
  rw [rest, same.eq]

open Resolution

variable {kind : Kind} {given : List String}

/-- Nesting inside a group is immaterial. When groups inside groups are replaced by their members, a
pattern that passes the check for a kind of operation still passes it, and on a shape without zeros
it has the same resolution and the same plans, or is refused at the same stage. -/
theorem nesting_immaterial (valid : p.check kind given = .ok ()) (unnests : p.Unnests q) :
    q.check kind given = .ok ()
    ∧ ∀ shape explicit, 0 ∉ shape →
      (solve kind p shape explicit).Alike Eq (solve kind q shape explicit)
      ∧ ∀ r, solve kind p shape explicit = .ok r →
        Plannable kind p shape r
        ∧ (Rearrange.ofPattern p shape r).Alike Eq (Rearrange.ofPattern q shape r)
        ∧ (∀ reduction keep, (Reduce.ofPattern p shape r reduction keep).Alike Eq
          (Reduce.ofPattern q shape r reduction keep))
        ∧ (Repeat.ofPattern p shape r).Alike Eq (Repeat.ofPattern q shape r) := by
  have valid := Pattern.check_eq_ok.mp valid
  have same := unnests.resembles
  refine ⟨Pattern.check_eq_ok.mpr (unnests.valid valid), fun shape explicit positive => ?_⟩
  refine ⟨alike_solve_of_resembles valid same positive, fun r solved => ?_⟩
  have valid := valid_of_solve valid solved
  obtain ⟨solvable, -⟩ := (solve_eq_ok valid).mp solved
  have inj : Set.InjOn id {n | n ∈ p.names} := Set.injOn_id _
  have inside := List.Subset.refl p.names
  have found : r.Corresponds id p.names r :=
    .refl fun n hn => Pattern.mem_names.mpr ((solvable.consistent.names n).mp hn)
  refine ⟨plannable_of_suits (suits_of_solve valid solved), ?_, fun reduction keep => ?_, ?_⟩
  · exact (same.alike_rearrange inj inside found).mono fun _ _ h => h.eq
  · exact (same.alike_reduce inj inside found reduction keep).mono fun _ _ h => h.eq
  · exact (same.alike_repeat inj inside found).mono fun _ _ h => h.eq

/-- A group of three names, two of which are in a group of their own, and one of these again. -/
def nestedPattern : Pattern :=
  .ofSides
    [.group [.name "a" .nowhere,
      .group [.group [.name "b" .nowhere] .nowhere, .name "c" .nowhere] .nowhere] .nowhere]
    [.name "a" .nowhere,
      .group [.group [.name "b" .nowhere] .nowhere, .name "c" .nowhere] .nowhere]

/-- The same pattern without groups inside groups. -/
def unnestedPattern : Pattern :=
  .ofSides [.group [.name "a" .nowhere, .name "b" .nowhere, .name "c" .nowhere] .nowhere]
    [.name "a" .nowhere, .group [.name "b" .nowhere, .name "c" .nowhere] .nowhere]

lemma nestedPattern_unnests : nestedPattern.Unnests unnestedPattern where
  input := by
    -- from the inside out
    have inner := Term.Unnests.inside [.name "a" .nowhere] [] .nowhere
      (.splice [] [.name "b" .nowhere] [.name "c" .nowhere] .nowhere .nowhere)
    have outer := Term.Unnests.splice [.name "a" .nowhere]
      [.name "b" .nowhere, .name "c" .nowhere] [] .nowhere .nowhere
    exact .tail (.single (.term [] [] inner)) (.term [] [] outer)
  output := by
    refine .single (.term [.name "a" .nowhere] [] ?_)
    exact .splice [] [.name "b" .nowhere] [.name "c" .nowhere] _ _

/-- Two patterns in which one of three sizes is found by division. -/
theorem nesting_immaterial_split :
    unnestedPattern.check .rearranging [] = .ok ()
      ∧ ∃ r plan, solve .rearranging nestedPattern [12] [("a", 2), ("b", 3)] = .ok r
        ∧ solve .rearranging unnestedPattern [12] [("a", 2), ("b", 3)] = .ok r
        ∧ Rearrange.ofPattern nestedPattern [12] r = .ok plan
        ∧ Rearrange.ofPattern unnestedPattern [12] r = .ok plan
        ∧ plan.steps = [.reshape [2, 6]] := by
  have valid : nestedPattern.check .rearranging [] = .ok () := by decide +kernel
  have steps : (solve .rearranging nestedPattern [12] [("a", 2), ("b", 3)] >>= fun r =>
      Rearrange.ofPattern nestedPattern [12] r).map (·.steps) = .ok [.reshape [2, 6]] := by
    decide +kernel
  obtain ⟨plan, both, steps⟩ := map_eq_ok.mp steps
  obtain ⟨r, solved, planned⟩ := bind_eq_ok.mp both
  obtain ⟨valid', alike⟩ := nesting_immaterial valid nestedPattern_unnests
  obtain ⟨resolved, plans⟩ := alike [12] [("a", 2), ("b", 3)] (by decide)
  obtain ⟨-, rearranged, -⟩ := plans r solved
  obtain ⟨_, solved', rfl⟩ := resolved.exists_ok solved
  obtain ⟨_, planned', rfl⟩ := rearranged.exists_ok planned
  exact ⟨valid', r, plan, solved, solved', planned, planned', steps⟩

end Plan

end AxisNotation
