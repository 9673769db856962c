import AxisNotation.Proofs.Resolution.Exact

/-!
# Names in place of the ellipsis

An ellipsis stands for a run of axes without names. `Terms.spell` puts names in its place, at any
depth. The elementary axes of the terms then correspond to those before (`Terms.axes_spell`), the
covered axes becoming named ones, and so do the groups (`Terms.groups_spell`). Under fresh names the
pattern stays valid (`Pattern.Valid.spell`).
-/

namespace AxisNotation

mutual

/-- The terms in place of a term when an ellipsis is spelled out. -/
def Term.spell (names : List String) : Term → Terms
  | .name n s => [.name n s]
  | .group ms s => [.group (Terms.spell names ms) s]
  | .ellipsis s => names.map fun n => .name n s
  | .unit s => [.unit s]

/-- The terms with names in place of each ellipsis. -/
def Terms.spell (names : List String) : Terms → Terms
  | [] => []
  | t :: ts => t.spell names ++ Terms.spell names ts

end

/-- The pattern with names in place of each ellipsis. -/
def Pattern.spell (names : List String) (p : Pattern) : Pattern :=
  .ofSides (p.input.spell names) (p.output.spell names)

/-- The axis that an axis becomes when the ellipsis is spelled out. -/
def Axis.spell (names : List String) : Axis → Axis
  | .named n => .named n
  | .covered i => .named (names.getD i "")

/-- Names that may stand in place of the ellipsis: they are legal, distinct and new. Without names
no group may be left empty. -/
structure Pattern.Spelling (names : List String) (p : Pattern) : Prop where
  legal : ∀ n ∈ names, Name.isLegal n = true
  distinct : names.Nodup
  fresh : ∀ side, ∀ n ∈ names, n ∉ (p.side side).names
  members : names = [] → ∀ side, ∀ g ∈ Terms.groups (p.side side), ∃ t ∈ g.1, t.isEllipsis = false

variable {names : List String} {width : Nat}

lemma Pattern.side_spell (p : Pattern) (side : Side) :
    (p.spell names).side side = (p.side side).spell names := by
  cases side with
  | input => rfl
  | output => rfl

/-! ## Axes and groups -/

/-- The covered axes become the names, in order. -/
lemma Axis.map_spell_covered {β : Type} (f : String → β) :
    ((List.range names.length).map fun i => f (names.getD i "")) = names.map f := by
  apply List.ext_getElem
  · rw [List.length_map, List.length_map, List.length_range]
  · intro i _ hi
    rw [List.length_map] at hi
    rw [List.getElem_map, List.getElem_map, List.getElem_range, List.getD_eq_getElem _ _ hi]

mutual

lemma Term.axes_spell (t : Term) :
    Terms.axes width (t.spell names) = (t.axes names.length).map (Axis.spell names) := by
  cases t with
  | name n s => rfl
  | group ms s => exact (List.append_nil _).trans (Terms.axes_spell ms)
  | ellipsis s =>
    rw [Term.spell, Terms.axes_eq_flatMap, List.flatMap_map, Term.axes, List.map_map]
    exact List.map_eq_flatMap.symm.trans (Axis.map_spell_covered _).symm
  | unit s => rfl

/-- The elementary axes of the spelled terms, where the terms have one for each name. -/
lemma Terms.axes_spell (ts : Terms) :
    Terms.axes width (ts.spell names)
      = (Terms.axes names.length ts).map (Axis.spell names) := by
  cases ts with
  | nil => rfl
  | cons t ts =>
    rw [Terms.spell, Terms.axes_append, Terms.axes, List.map_append, Term.axes_spell,
      Terms.axes_spell]

end

mutual

lemma Term.groups_spell (t : Term) :
    Terms.groups (t.spell names) = t.groups.map fun g => (g.1.spell names, g.2) := by
  cases t with
  | name n s => rfl
  | group ms s =>
    rw [Term.spell, Term.groups, List.map_append, ← Terms.groups_spell ms]
    exact List.append_nil _
  | ellipsis s =>
    rw [Term.spell, Terms.groups_eq_flatMap, List.flatMap_map]
    exact List.flatMap_eq_nil_iff.mpr fun _ _ => rfl
  | unit s => rfl

/-- The groups of the spelled terms are those of the terms, spelled. -/
lemma Terms.groups_spell (ts : Terms) :
    Terms.groups (ts.spell names) = (Terms.groups ts).map fun g => (g.1.spell names, g.2) := by
  cases ts with
  | nil => rfl
  | cons t ts =>
    rw [Terms.spell, Terms.groups_append, Terms.groups, List.map_append, Term.groups_spell,
      Terms.groups_spell]

end

mutual

lemma Term.spell_of_no_ellipsis {t : Term} (h : t.ellipses = 0) : t.spell names = [t] := by
  cases t with
  | group ms s => exact congrArg (fun ms => [Term.group ms s]) (Terms.spell_of_no_ellipsis h)
  | ellipsis s => cases h
  | _ => rfl

lemma Terms.spell_of_no_ellipsis {ts : Terms} (h : Terms.ellipses ts = 0) :
    Terms.spell names ts = ts := by
  cases ts with
  | nil => rfl
  | cons t ts =>
    obtain ⟨first, rest⟩ := Nat.add_eq_zero_iff.mp h
    rw [Terms.spell, Term.spell_of_no_ellipsis first, Terms.spell_of_no_ellipsis rest]
    rfl

end

namespace Terms

variable {ts : Terms}

lemma spell_eq_flatMap (ts : Terms) : ts.spell names = ts.flatMap (Term.spell names) := by
  induction ts with
  | nil => rfl
  | cons t ts ih => rw [spell, ih, List.flatMap_cons]

/-- A name of the spelled terms is one of the terms, or one in place of an ellipsis. -/
lemma mem_names_spell {n : String} :
    n ∈ Terms.names (ts.spell names)
      ↔ n ∈ Terms.names ts ∨ n ∈ names ∧ 0 < Terms.ellipses ts := by
  have named : n ∈ Terms.names (ts.spell names) ↔ .named n ∈ Terms.axes 0 (ts.spell names) :=
    named_mem_axes.symm
  rw [named, axes_spell, List.mem_map]
  constructor
  · rintro ⟨a, ha, e⟩
    cases a with
    | named m =>
      obtain rfl := Axis.named.inj e
      exact .inl (named_mem_axes.mp ha)
    | covered i =>
      obtain ⟨inside, some⟩ := covered_mem_axes.mp ha
      obtain rfl := Axis.named.inj e
      rw [List.getD_eq_getElem _ _ inside]
      exact .inr ⟨List.getElem_mem inside, some⟩
  · rintro (old | ⟨new, some⟩)
    · exact ⟨.named n, named_mem_axes.mpr old, rfl⟩
    · obtain ⟨i, hi, rfl⟩ := List.getElem_of_mem new
      refine ⟨.covered i, covered_mem_axes.mpr ⟨hi, some⟩, ?_⟩
      rw [Axis.spell, List.getD_eq_getElem _ _ hi]

lemma names_spell_subset {us : Terms} (names_sub : Terms.names ts ⊆ Terms.names us)
    (ellipses : 0 < Terms.ellipses ts → 0 < Terms.ellipses us) :
    Terms.names (ts.spell names) ⊆ Terms.names (us.spell names) := by
  intro n hn
  rcases mem_names_spell.mp hn with old | ⟨new, some⟩
  · exact mem_names_spell.mpr (.inl (names_sub old))
  · exact mem_names_spell.mpr (.inr ⟨new, ellipses some⟩)

lemma ellipses_spell (names : List String) (ts : Terms) : Terms.ellipses (ts.spell names) = 0 := by
  by_contra some
  have covered : .covered 0 ∈ Terms.axes 1 (ts.spell names) :=
    covered_mem_axes.mpr ⟨Nat.zero_lt_one, Nat.pos_of_ne_zero some⟩
  rw [axes_spell, List.mem_map] at covered
  obtain ⟨a, -, e⟩ := covered
  cases a <;> cases e

lemma isOpen_of_no_ellipsis (h : Terms.ellipses ts = 0) : Terms.isOpen ts = false := by
  have none : ts.countP Term.isEllipsis ≤ 0 := h ▸ countP_isEllipsis_le ts
  exact isOpen_eq_false.mpr (Nat.le_zero.mp none)

/-- Groups that have no ellipses are not changed. -/
lemma group_mem_spell (closed : ∀ t ∈ ts, t.isEllipsis = false → t.ellipses = 0) {ms : Terms}
    {s : Span} : .group ms s ∈ ts.spell names ↔ .group ms s ∈ ts := by
  rw [spell_eq_flatMap, List.mem_flatMap]
  constructor
  · rintro ⟨t, ht, mem⟩
    cases single : t.isEllipsis with
    | true =>
      obtain ⟨s, rfl⟩ := Term.exists_of_isEllipsis single
      obtain ⟨n, -, e⟩ := List.mem_map.mp mem
      cases e
    | false =>
      rw [Term.spell_of_no_ellipsis (closed t ht single)] at mem
      exact List.mem_singleton.mp mem ▸ ht
  · intro ht
    refine ⟨_, ht, ?_⟩
    rw [Term.spell_of_no_ellipsis (closed _ ht rfl)]
    exact List.mem_singleton_self _

/-- Spelling leaves no terms only where there were none, or only ellipses and no names. -/
lemma spell_ne_nil (nonempty : ts ≠ []) (h : names = [] → ∃ t ∈ ts, t.isEllipsis = false) :
    ts.spell names ≠ [] := by
  rw [spell_eq_flatMap, ne_eq, List.flatMap_eq_nil_iff]
  intro none
  by_cases names_nil : names = []
  · obtain ⟨t, mem, single⟩ := h names_nil
    have left := none t mem
    cases t with
    | ellipsis s => cases single
    | _ => cases left
  · obtain ⟨t, mem⟩ := List.exists_mem_of_ne_nil ts nonempty
    have left := none t mem
    cases t with
    | ellipsis s => exact names_nil (List.map_eq_nil_iff.mp left)
    | _ => cases left

end Terms

/-- Different axes become different axes, as long as the names are fresh. -/
lemma Axis.spell_inj {ts us : Terms} (distinct : names.Nodup)
    (fresh : ∀ n ∈ names, n ∉ Terms.names ts) (fresh' : ∀ n ∈ names, n ∉ Terms.names us)
    {a b : Axis} (ha : a ∈ Terms.axes names.length ts) (hb : b ∈ Terms.axes names.length us)
    (e : a.spell names = b.spell names) : a = b := by
  have covered {i : Nat} {vs : Terms} (h : .covered i ∈ Terms.axes names.length vs) :
      ∃ hi : i < names.length, names.getD i "" = names[i] := by
    have inside := (Terms.covered_mem_axes.mp h).1
    exact ⟨inside, List.getD_eq_getElem _ _ inside⟩
  cases a with
  | named n =>
    cases b with
    | named m => exact e
    | covered j =>
      obtain ⟨hj, name⟩ := covered hb
      have e : n = names[j] := (Axis.named.inj e).trans name
      exact absurd (Terms.named_mem_axes.mp ha) (fresh n (e ▸ List.getElem_mem hj))
  | covered i =>
    obtain ⟨hi, name⟩ := covered ha
    cases b with
    | named m =>
      have e : names[i] = m := name.symm.trans (Axis.named.inj e)
      exact absurd (Terms.named_mem_axes.mp hb) (fresh' m (e ▸ List.getElem_mem hi))
    | covered j =>
      obtain ⟨hj, name'⟩ := covered hb
      have e : names[i] = names[j] := name.symm.trans ((Axis.named.inj e).trans name')
      rw [(distinct.getElem_inj_iff).mp e]

/-! ## Shapes -/

section Shapes

variable {size size' : Axis → Nat}

lemma Term.extents_spell {t : Term}
    (same : ∀ a ∈ t.axes names.length, size' (a.spell names) = size a) :
    Terms.extents width size' (t.spell names) = t.extents names.length size := by
  cases t with
  | name n s =>
    have first : size' (.named n) = size (.named n) := same (.named n) List.mem_cons_self
    exact congrArg (fun d => [d]) first
  | group ms s =>
    have volume : Axis.volume size' (Terms.axes width (Terms.spell names ms))
        = Axis.volume size (Terms.axes names.length ms) := by
      rw [Terms.axes_spell, Axis.volume, Axis.volume, List.map_map]
      exact congrArg List.prod (List.map_congr_left same)
    exact congrArg (fun d => [d]) volume
  | ellipsis s =>
    rw [Term.spell, Terms.extents, List.flatMap_map, Term.extents]
    apply List.map_eq_flatMap.symm.trans
    apply (Axis.map_spell_covered fun n => size' (.named n)).symm.trans
    apply List.map_congr_left
    intro i hi
    exact same (.covered i) (List.mem_map_of_mem hi)
  | unit s => rfl

/-- Axes of the same sizes give the spelled side the same shape. -/
lemma Terms.extents_spell {ts : Terms}
    (same : ∀ a ∈ Terms.axes names.length ts, size' (a.spell names) = size a) :
    Terms.extents width size' (ts.spell names) = Terms.extents names.length size ts := by
  induction ts with
  | nil => rfl
  | cons t ts ih =>
    obtain ⟨first, rest⟩ := List.forall_mem_append.mp same
    rw [Terms.spell, Terms.extents, List.flatMap_append]
    exact congrArg₂ List.append (Term.extents_spell first) (ih rest)

end Shapes

/-! ## Validity -/

/-- A valid pattern stays valid when its ellipsis is spelled out. -/
theorem Pattern.Valid.spell {kind : Kind} {p : Pattern} {given : List String}
    (valid : p.Valid kind given) (spelling : p.Spelling names) :
    (p.spell names).Valid kind given where
  legal n hn := by
    rcases List.mem_append.mp hn with input | output
    · rcases Terms.mem_names_spell.mp input with old | new
      · exact valid.legal n (List.mem_append_left _ old)
      · exact spelling.legal n new.1
    · rcases Terms.mem_names_spell.mp output with old | new
      · exact valid.legal n (List.mem_append_right _ old)
      · exact spelling.legal n new.1
  oneEllipsis side := by
    rw [p.side_spell, Terms.ellipses_spell]
    exact Nat.zero_le 1
  noEmptyGroup side := by
    rw [p.side_spell, Terms.hasEmptyGroup, Terms.groups_spell, List.any_map, List.any_eq_false]
    intro g hg empty
    have nonempty : g.1 ≠ [] := by
      intro none
      exact List.any_eq_false.mp (valid.noEmptyGroup side) g hg (List.isEmpty_iff.mpr none)
    apply Terms.spell_ne_nil nonempty fun none => spelling.members none side g hg
    exact List.isEmpty_iff.mp empty
  noOpenGroup := by
    have groups : Terms.groups (p.spell names).input = _ := Terms.groups_spell p.input
    rw [Terms.hasOpenGroup, groups, List.any_map, List.any_eq_false]
    intro g hg
    exact Bool.eq_false_iff.mp (Terms.isOpen_of_no_ellipsis (Terms.ellipses_spell names g.1))
  ellipsisKnown some := by
    have none : (p.spell names).output.ellipses = 0 := Terms.ellipses_spell names p.output
    rw [none] at some
    cases some
  ellipsisKept _ some := by
    have none : (p.spell names).input.ellipses = 0 := Terms.ellipses_spell names p.input
    rw [none] at some
    cases some
  namesMatch := by
    have namesMatch := valid.namesMatch
    cases kind with
    | rearranging =>
      obtain ⟨kept, known⟩ := namesMatch
      exact ⟨Terms.names_spell_subset kept (valid.ellipsisKept nofun),
        Terms.names_spell_subset known valid.ellipsisKnown⟩
    | reducing => exact Terms.names_spell_subset namesMatch valid.ellipsisKnown
    | repeating =>
      obtain ⟨kept, sized⟩ := namesMatch
      refine ⟨Terms.names_spell_subset kept (valid.ellipsisKept nofun), fun n output input => ?_⟩
      rcases Terms.mem_names_spell.mp output with old | ⟨new, some⟩
      · exact sized n old fun known => input (Terms.mem_names_spell.mpr (.inl known))
      · exact absurd (Terms.mem_names_spell.mpr (.inr ⟨new, valid.ellipsisKnown some⟩)) input
  distinct side := by
    have nodup : ((Terms.axes names.length (p.side side)).map (Axis.spell names)).Nodup := by
      apply List.Nodup.map_on _ (valid.nodup_axes side names.length)
      intro a ha b hb e
      exact Axis.spell_inj spelling.distinct (spelling.fresh side) (spelling.fresh side) ha hb e
    have axes := Terms.axes_of_no_ellipsis 0 (Terms.ellipses_spell names (p.side side))
    rw [Terms.axes_spell] at axes
    rw [axes] at nodup
    rw [p.side_spell]
    exact nodup.of_map

end AxisNotation
