import AxisNotation.Proofs.Resolution.Matching

/-!
# The shape of the output

The output shape follows from the sizes of the axes. It can be stated exactly when the product of
the members of each group can (`Resolution.shapeOf_eq_ok`), and then it is the shape that the sizes
give to the output side.
-/

namespace AxisNotation

/-- The size of a term, where an ellipsis stands for the product of the run. -/
def Term.volume (m : Sizes) (run : Shape) (t : Term) : Nat :=
  Axis.volume (m.ofAxis run) (t.axes run.length)

/-- The sizes of the members of a group can be multiplied, and the dimensions of an ellipsis among
them. -/
def Terms.GroupFits (m : Sizes) (run : Shape) (ms : Terms) : Prop :=
  (Terms.isOpen ms = true → ∃ k, Shape.product? run = some k)
    ∧ ∃ k, Shape.product? (ms.map (Term.volume m run)) = some k

/-- The size of each group at any depth can be stated. -/
def Terms.Fits (m : Sizes) (run : Shape) (ts : Terms) : Prop :=
  ∀ g ∈ Terms.groups ts, Terms.GroupFits m run g.1

variable {m : Sizes} {run : Shape} {pattern : String} {b : Binding}

lemma Sizes.volume_covered :
    Axis.volume (m.ofAxis run) ((List.range run.length).map .covered) = run.prod := by
  rw [Axis.volume, List.map_map]
  exact congrArg List.prod map_ofAxis_covered

lemma Terms.volume_eq_prod (ts : Terms) :
    Axis.volume (m.ofAxis run) (Terms.axes run.length ts) = (ts.map (Term.volume m run)).prod := by
  induction ts with
  | nil => rfl
  | cons t ts ih =>
    rw [Terms.axes, Axis.volume_append, List.map_cons, List.prod_cons, ← ih]
    rfl

mutual

/-- A term whose names are bound has a size when its groups fit, and then its volume. -/
lemma Term.size_eq_ok {t : Term} {k : Nat} (bound : ∀ n ∈ t.names, n ∈ b.sizes) :
    t.size pattern b = .ok k ↔ (∀ g ∈ t.groups, Terms.GroupFits b.sizes b.covered g.1)
      ∧ (t.isEllipsis = true → ∃ k, Shape.product? b.covered = some k)
      ∧ k = t.volume b.sizes b.covered := by
  cases t with
  | name n s =>
    obtain ⟨d, hd⟩ := Sizes.mem_iff.mp (bound n List.mem_cons_self)
    have volume : Term.volume b.sizes b.covered (.name n s) = d :=
      (Nat.mul_one _).trans (Sizes.getD_of_getElem? hd)
    rw [Term.size, Outcome.orReject_eq_ok, hd, volume, Option.some.injEq]
    exact ⟨fun e => ⟨nofun, nofun, e.symm⟩, fun h => h.2.2.symm⟩
  | group ms s =>
    simp only [Term.size, bind_eq_ok, Resolution.product_eq_ok, Terms.sizes_eq_ok bound]
    rw [Term.groups, List.forall_mem_append, List.forall_mem_singleton]
    have volume : Term.volume b.sizes b.covered (.group ms s)
        = (ms.map (Term.volume b.sizes b.covered)).prod := Terms.volume_eq_prod ms
    rw [volume]
    constructor
    · rintro ⟨sizes, ⟨inner, ellipsis, rfl⟩, hk⟩
      exact ⟨⟨inner, ellipsis, k, hk⟩, nofun, Resolution.eq_prod_of_product? hk⟩
    · rintro ⟨⟨inner, ellipsis, k', hk⟩, -, rfl⟩
      exact ⟨_, ⟨inner, ellipsis, rfl⟩, Resolution.eq_prod_of_product? hk ▸ hk⟩
  | ellipsis s =>
    rw [Term.size, Resolution.product_eq_ok]
    have volume : Term.volume b.sizes b.covered (.ellipsis s) = b.covered.prod :=
      Sizes.volume_covered
    rw [volume]
    constructor
    · exact fun hk => ⟨nofun, fun _ => ⟨k, hk⟩, Resolution.eq_prod_of_product? hk⟩
    · rintro ⟨-, ellipsis, rfl⟩
      obtain ⟨k, hk⟩ := ellipsis rfl
      exact Resolution.eq_prod_of_product? hk ▸ hk
  | unit s =>
    rw [Term.size, Except.ok.injEq]
    exact ⟨fun e => ⟨nofun, nofun, e.symm⟩, fun h => h.2.2.symm⟩

lemma Terms.sizes_eq_ok {ts : Terms} {ks : List Nat} (bound : ∀ n ∈ Terms.names ts, n ∈ b.sizes) :
    Terms.sizes pattern b ts = .ok ks ↔ Terms.Fits b.sizes b.covered ts
      ∧ (Terms.isOpen ts = true → ∃ k, Shape.product? b.covered = some k)
      ∧ ks = ts.map (Term.volume b.sizes b.covered) := by
  cases ts with
  | nil =>
    rw [Terms.sizes, Except.ok.injEq]
    exact ⟨fun e => ⟨nofun, nofun, e.symm⟩, fun h => h.2.2.symm⟩
  | cons t ts =>
    obtain ⟨bound_t, bound_ts⟩ := List.forall_mem_append.mp bound
    simp only [Terms.sizes, bind_eq_ok, pure_eq_ok, Term.size_eq_ok bound_t,
      Terms.sizes_eq_ok bound_ts, Terms.Fits, Terms.groups, List.forall_mem_append, Terms.isOpen,
      List.any_cons, Bool.or_eq_true, or_imp, List.map_cons]
    constructor
    · rintro ⟨_, ⟨groups, ellipsis, rfl⟩, _, ⟨groups', ellipsis', rfl⟩, rfl⟩
      exact ⟨⟨groups, groups'⟩, ⟨ellipsis, ellipsis'⟩, rfl⟩
    · rintro ⟨⟨groups, groups'⟩, ⟨ellipsis, ellipsis'⟩, rfl⟩
      exact ⟨_, ⟨groups, ellipsis, rfl⟩, _, ⟨groups', ellipsis', rfl⟩, rfl⟩

end

lemma Term.extents_of_single {t : Term} (single : t.isEllipsis = false) (width : Nat)
    (size : Axis → Nat) : t.extents width size = [Axis.volume size (t.axes width)] := by
  cases t with
  | name n s => exact congrArg (fun d => [d]) (Nat.mul_one _).symm
  | group ms s => rfl
  | ellipsis s => cases single
  | unit s => rfl

mutual

lemma Term.settles_size (t : Term) : (t.size pattern b).Settles := by
  cases t with
  | name n s => exact Outcome.settles_orReject _ _
  | group ms s => exact (Terms.settles_sizes ms).bind fun _ _ => Outcome.settles_orReject _ _
  | ellipsis s => exact Outcome.settles_orReject _ _
  | unit s => exact nofun

lemma Terms.settles_sizes (ts : Terms) : (Terms.sizes pattern b ts).Settles := by
  cases ts with
  | nil => exact nofun
  | cons t ts =>
    refine (Term.settles_size t).bind fun _ _ => ?_
    exact (Terms.settles_sizes ts).bind fun _ _ => nofun

end

namespace Resolution

lemma shapeOf_cons {t : Term} (single : t.isEllipsis = false) (ts : Terms) :
    shapeOf pattern b (t :: ts) = do
      let size ← t.size pattern b
      let sizes ← shapeOf pattern b ts
      return size :: sizes := by
  cases t with
  | ellipsis s => cases single
  | _ => rfl

/-- The output shape is the one that the sizes give the output, and exists when all groups fit. -/
theorem shapeOf_eq_ok {ts : Terms} {shape : Shape} (bound : ∀ n ∈ Terms.names ts, n ∈ b.sizes) :
    shapeOf pattern b ts = .ok shape ↔ Terms.Fits b.sizes b.covered ts
      ∧ shape = Terms.extents b.covered.length (b.sizes.ofAxis b.covered) ts := by
  induction ts generalizing shape with
  | nil =>
    rw [shapeOf, Except.ok.injEq]
    exact ⟨fun e => ⟨nofun, e.symm⟩, fun h => h.2.symm⟩
  | cons t ts ih =>
    obtain ⟨bound_t, bound_ts⟩ := List.forall_mem_append.mp bound
    have ih {shape : Shape} := @ih shape bound_ts
    rw [Terms.Fits, Terms.groups, List.forall_mem_append]
    cases single : t.isEllipsis with
    | true =>
      obtain ⟨s, rfl⟩ := Term.exists_of_isEllipsis single
      simp only [shapeOf, bind_eq_ok, pure_eq_ok, ih]
      have extents : Terms.extents b.covered.length (b.sizes.ofAxis b.covered) (.ellipsis s :: ts)
          = b.covered ++ Terms.extents b.covered.length (b.sizes.ofAxis b.covered) ts :=
        congrArg (· ++ _) Sizes.map_ofAxis_covered
      rw [extents]
      constructor
      · rintro ⟨_, ⟨fits, rfl⟩, rfl⟩
        exact ⟨⟨nofun, fits⟩, rfl⟩
      · rintro ⟨⟨-, fits⟩, rfl⟩
        exact ⟨_, ⟨fits, rfl⟩, rfl⟩
    | false =>
      simp only [shapeOf_cons single, bind_eq_ok, pure_eq_ok, ih, Term.size_eq_ok bound_t, single]
      have extents : Terms.extents b.covered.length (b.sizes.ofAxis b.covered) (t :: ts)
          = t.volume b.sizes b.covered
            :: Terms.extents b.covered.length (b.sizes.ofAxis b.covered) ts :=
        congrArg (· ++ _) (Term.extents_of_single single _ _)
      rw [extents]
      constructor
      · rintro ⟨_, ⟨fits, -, rfl⟩, _, ⟨fits', rfl⟩, rfl⟩
        exact ⟨⟨fits, fits'⟩, rfl⟩
      · rintro ⟨⟨fits, fits'⟩, rfl⟩
        exact ⟨_, ⟨fits, nofun, rfl⟩, _, ⟨fits', rfl⟩, rfl⟩

lemma settles_shapeOf (ts : Terms) : (shapeOf pattern b ts).Settles := by
  induction ts with
  | nil => exact nofun
  | cons t ts ih =>
    cases single : t.isEllipsis with
    | true =>
      obtain ⟨s, rfl⟩ := Term.exists_of_isEllipsis single
      exact ih.bind fun _ _ => nofun
    | false =>
      rw [shapeOf_cons single]
      refine (Term.settles_size t).bind fun _ _ => ?_
      exact ih.bind fun _ _ => nofun

end Resolution

end AxisNotation
