import AxisNotation.Proofs.Resolution.Facing

/-!
# Sides that resemble each other

Of a group on a side, the solver sees the names in it and a plan the elementary axes under it. So a
side is known by its terms one by one, and each of its groups by the axes. Two sides that are the
same in this respect resemble each other (`Terms.Resembles`), with the names as they are or replaced
by others, and what they have in common is all that is looked at.
-/

namespace AxisNotation

/-- The axis that corresponds to an axis when names are replaced. -/
def Axis.rename (f : String → String) : Axis → Axis
  | .named n => .named (f n)
  | .covered i => .covered i

/-- A term has the form of another term and the corresponding axes. Two groups need not have the
same groups inside. -/
inductive Term.Resembles (f : String → String) : Term → Term → Prop where
  | name {n : String} {s s' : Span} : Term.Resembles f (.name n s) (.name (f n) s')
  | group {ms ms' : Terms} {s s' : Span} :
      (∀ width, Terms.axes width ms' = (Terms.axes width ms).map (Axis.rename f)) →
      Term.Resembles f (.group ms s) (.group ms' s')
  | ellipsis {s s' : Span} : Term.Resembles f (.ellipsis s) (.ellipsis s')
  | unit {s s' : Span} : Term.Resembles f (.unit s) (.unit s')

/-- Terms resemble other terms one by one. -/
def Terms.Resembles (f : String → String) : Terms → Terms → Prop :=
  List.Forall₂ (Term.Resembles f)

/-- A pattern resembles another pattern on both sides. -/
structure Pattern.Resembles (f : String → String) (p p' : Pattern) : Prop where
  input : p.input.Resembles f p'.input
  output : p.output.Resembles f p'.output

variable {f : String → String} {t t' t'' : Term} {ts ts' ts'' : Terms}

lemma names_of_axes {ns ns' : List String}
    (h : ns'.map Axis.named = (ns.map Axis.named).map (Axis.rename f)) : ns' = ns.map f := by
  have inj : Function.Injective Axis.named := fun _ _ e => Axis.named.inj e
  apply List.map_injective_iff.mpr inj
  rw [h, List.map_map, List.map_map]
  rfl

lemma Axis.count_covered_rename (axes : List Axis) (i : Nat) :
    (axes.map (rename f)).count (.covered i) = axes.count (.covered i) := by
  rw [List.count, List.countP_map]
  refine List.countP_congr fun a _ => ?_
  cases a with
  | named n => simp [rename]
  | covered j => rfl

lemma any_of_forall₂ {β γ : Type} {R : β → γ → Prop} {xs : List β} {ys : List γ} {p : β → Bool}
    {q : γ → Bool} (h : List.Forall₂ R xs ys) (same : ∀ x y, R x y → q y = p x) :
    ys.any q = xs.any p := by
  induction h with
  | nil => rfl
  | cons first _ ih => rw [List.any_cons, List.any_cons, same _ _ first, ih]

namespace Term.Resembles

lemma axes (h : t.Resembles f t') (width : Nat) :
    t'.axes width = (t.axes width).map (Axis.rename f) := by
  cases h with
  | group same => exact same width
  | ellipsis =>
    rw [Term.axes, Term.axes, List.map_map]
    rfl
  | _ => rfl

lemma names (h : t.Resembles f t') : t'.names = t.names.map f := by
  apply names_of_axes
  rw [← Term.axes_zero, ← Term.axes_zero]
  exact h.axes 0

lemma isEllipsis (h : t.Resembles f t') : t'.isEllipsis = t.isEllipsis := by
  cases h <;> rfl

lemma name? (h : t.Resembles f t') : t'.name? = t.name?.map f := by
  cases h <;> rfl

end Term.Resembles

namespace Terms.Resembles

lemma axes (h : ts.Resembles f ts') (width : Nat) :
    Terms.axes width ts' = (Terms.axes width ts).map (Axis.rename f) := by
  induction h with
  | nil => rfl
  | cons first _ ih => rw [Terms.axes, Terms.axes, List.map_append, first.axes, ih]

lemma names (h : ts.Resembles f ts') : Terms.names ts' = (Terms.names ts).map f := by
  apply names_of_axes
  rw [← Terms.axes_zero, ← Terms.axes_zero]
  exact h.axes 0

/-- The first covered axis is there once for each ellipsis. -/
lemma ellipses (h : ts.Resembles f ts') : Terms.ellipses ts' = Terms.ellipses ts := by
  have count (ts : Terms) : (Terms.axes 1 ts).count (.covered 0) = Terms.ellipses ts :=
    Terms.count_covered 1 0 ts
  rw [← count, ← count, h.axes, Axis.count_covered_rename]

lemma isOpen (h : ts.Resembles f ts') : ts'.isOpen = ts.isOpen :=
  any_of_forall₂ h fun _ _ h => h.isEllipsis

lemma dimensions (h : ts.Resembles f ts') : ts'.dimensions = ts.dimensions := by
  induction h with
  | nil => rfl
  | cons first _ ih =>
    rw [Terms.dimensions, Terms.dimensions, List.countP_cons, List.countP_cons, first.isEllipsis]
    exact congrArg (· + _) ih

lemma plainNames? (h : ts.Resembles f ts') :
    ts'.plainNames? = ts.plainNames?.map (List.map f) := by
  induction h with
  | nil => rfl
  | @cons t t' ts ts' first _ ih =>
    rw [Terms.plainNames?, Terms.plainNames?] at ih ⊢
    rw [List.mapM_cons, List.mapM_cons, first.name?, ih]
    cases t.name? with
    | none => rfl
    | some n => cases ts.mapM Term.name? <;> rfl

end Terms.Resembles

lemma Pattern.Resembles.side {p p' : Pattern} (h : p.Resembles f p') (side : Side) :
    (p.side side).Resembles f (p'.side side) := by
  cases side with
  | input => exact h.input
  | output => exact h.output

/-! ## The same names

When no name is replaced, sides that resemble each other have the same axes. -/

lemma Axis.rename_id : Axis.rename id = id := by
  funext a
  cases a <;> rfl

namespace Term.Resembles

lemma of_axes {ms ms' : Terms} (s s' : Span)
    (same : ∀ width, Terms.axes width ms' = Terms.axes width ms) :
    Term.Resembles id (.group ms s) (.group ms' s') :=
  .group fun width => by rw [Axis.rename_id, List.map_id, same]

lemma axes_eq (h : t.Resembles id t') (width : Nat) : t'.axes width = t.axes width := by
  rw [h.axes, Axis.rename_id, List.map_id]

lemma refl (t : Term) : t.Resembles id t := by
  cases t with
  | name n s => exact .name
  | group ms s => exact .of_axes s s fun _ => rfl
  | ellipsis s => exact .ellipsis
  | unit s => exact .unit

lemma trans (h : t.Resembles id t') (h' : t'.Resembles id t'') : t.Resembles id t'' := by
  have axes (width : Nat) : t''.axes width = t.axes width :=
    (h'.axes_eq width).trans (h.axes_eq width)
  cases h with
  | name =>
    cases h'
    exact .name
  | group =>
    cases h'
    exact .of_axes _ _ axes
  | ellipsis =>
    cases h'
    exact .ellipsis
  | unit =>
    cases h'
    exact .unit

end Term.Resembles

namespace Terms.Resembles

lemma axes_eq (h : ts.Resembles id ts') (width : Nat) :
    Terms.axes width ts' = Terms.axes width ts := by
  rw [h.axes, Axis.rename_id, List.map_id]

lemma names_eq (h : ts.Resembles id ts') : Terms.names ts' = Terms.names ts := by
  rw [h.names, List.map_id]

lemma refl (ts : Terms) : ts.Resembles id ts :=
  List.forall₂_same.mpr fun t _ => .refl t

lemma trans (h : ts.Resembles id ts') (h' : ts'.Resembles id ts'') : ts.Resembles id ts'' := by
  induction h generalizing ts'' with
  | nil => exact h'
  | cons first _ ih =>
    cases h' with
    | cons first' rest' => exact .cons (first.trans first') (ih rest')

end Terms.Resembles

end AxisNotation
