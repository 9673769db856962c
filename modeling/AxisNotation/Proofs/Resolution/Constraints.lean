import AxisNotation.Proofs.Resolution.Magnitude
import AxisNotation.Proofs.Resolution.Refusal

/-!
# Explicit sizes as constraints

A list of explicit sizes says what sizes some axes have. Neither the order of its entries nor how
often one is listed matters (`Resolution.alike_of_entries`), since the same sizes are collected or
both lists are refused. An entry that a resolution satisfies already changes nothing either: in a
group it makes the only unknown size a given one, so that the product of all sizes has to be stated,
and this is a dimension of the shape (`Terms.Determined.extend`, `Pattern.Solvable.extend`).
-/

namespace AxisNotation

variable {kind : Kind} {p : Pattern} {shape : Shape} {explicit explicit' : SizeList}
  {given given' m : Sizes} {pattern : String} {ts : Terms}

/-! ## The same entries -/

lemma SizeList.Coherent.of_subset (h : explicit'.Coherent) (sub : ∀ e ∈ explicit, e ∈ explicit') :
    explicit.Coherent :=
  ⟨fun n k mem => h.positive n k (sub _ mem),
    fun n k k' mem mem' => h.agree n k k' (sub _ mem) (sub _ mem')⟩

namespace Resolution

lemma collect_of_entries (same : ∀ e, e ∈ explicit ↔ e ∈ explicit')
    (collected : collect pattern ∅ explicit = .ok given) :
    collect pattern ∅ explicit' = .ok given := by
  have coherent := (exists_collect pattern).mp ⟨given, collected⟩
  obtain ⟨given', collected'⟩ := (exists_collect pattern).mpr
    (coherent.of_subset fun e mem => (same e).mpr mem)
  obtain rfl : given' = given := by
    refine Std.ExtTreeMap.ext_getElem? fun n => Option.ext fun k => ?_
    rw [collected_listed collected, collected_listed collected', same]
  exact collected'

/-- Lists with the same entries have the same resolution or are refused at the same stage. -/
theorem alike_of_entries (kind : Kind) (p : Pattern) (shape : Shape)
    (same : ∀ e, e ∈ explicit ↔ e ∈ explicit') :
    (solve kind p shape explicit).Alike Eq (solve kind p shape explicit') := by
  have collected : (collect p.text ∅ explicit).Alike Eq (collect p.text ∅ explicit') :=
    refuses_collect.alike refuses_collect fun given =>
      ⟨collect_of_entries same, collect_of_entries fun e => (same e).symm⟩
  rw [solve_eq, solve_eq]
  refine collected.bind fun given given' e => ?_
  rw [e]
  exact .refl _

end Resolution

/-! ## More entries -/

namespace Sizes

variable {names : List String}

lemma unknown_sublist (more : ∀ (n : String) (k : Nat), given[n]? = some k → given'[n]? = some k) :
    (given'.unknown names).Sublist (given.unknown names) := by
  refine List.monotone_filter_right _ fun n unknown => ?_
  cases hn : given[n]? with
  | none => rfl
  | some k =>
    rw [more n k hn] at unknown
    cases unknown

/-- When only one size is unknown and more sizes are given, these are no sizes of the names or there
is no unknown size any more. -/
lemma same_or_all_given
    (more : ∀ (n : String) (k : Nat), given[n]? = some k → given'[n]? = some k)
    (one : (given.unknown names).length ≤ 1) :
    (∀ n ∈ names, given'[n]? = given[n]?) ∨ given'.unknown names = [] := by
  by_contra neither
  push Not at neither
  obtain ⟨⟨n, hn, differs⟩, some⟩ := neither
  have unknown : given[n]? = none := by
    by_contra known
    obtain ⟨k, hk⟩ := Option.ne_none_iff_exists'.mp known
    exact differs ((more n k hk).trans hk.symm)
  -- the name was the only unknown one, and one is still unknown
  have equal : given'.unknown names = given.unknown names :=
    (unknown_sublist more).eq_of_length_le (one.trans (List.length_pos_iff.mpr some))
  have still : n ∈ given'.unknown names :=
    equal ▸ List.mem_filter.mpr ⟨hn, Option.isNone_iff_eq_none.mpr unknown⟩
  have none := Option.isNone_iff_eq_none.mp (List.mem_filter.mp still).2
  exact differs (none.trans unknown.symm)

end Sizes

namespace Terms

/-- A group that faces a dimension has the size of this dimension. -/
lemma Faces.product_mem {run : Shape} {ms : Terms} {s : Span} (faces : Faces m run ts shape)
    (mem : .group ms s ∈ ts) : m.product (Terms.names ms) ∈ shape := by
  induction faces with
  | nil => cases mem
  | name _ _ ih =>
    obtain mem := (List.mem_cons.mp mem).resolve_left nofun
    exact List.mem_cons_of_mem _ (ih mem)
  | group _ ih =>
    rcases List.mem_cons.mp mem with same | mem
    · cases same
      exact List.mem_cons_self
    · exact List.mem_cons_of_mem _ (ih mem)
  | ellipsis _ ih =>
    obtain mem := (List.mem_cons.mp mem).resolve_left nofun
    exact List.mem_append_right _ (ih mem)
  | unit _ ih =>
    obtain mem := (List.mem_cons.mp mem).resolve_left nofun
    exact List.mem_cons_of_mem _ (ih mem)

/-- Groups stay determined when more of their sizes are given. The size of an unknown name is given
only if it is positive, so the group has no empty axis then and its size is within the limit. -/
lemma Determined.extend (h : Determined given ts)
    (more : ∀ (n : String) (k : Nat), given[n]? = some k → given'[n]? = some k)
    (positive : ∀ (n : String) (k : Nat), given'[n]? = some k → k ≠ 0)
    (agrees : m.Agrees given' (Terms.names ts))
    (bounded : ∀ ms s, .group ms s ∈ ts → m.product (Terms.names ms) ≤ Shape.sizeLimit) :
    Determined given' ts := by
  intro ms s mem
  obtain ⟨one, stated⟩ := h ms s mem
  refine ⟨(Sizes.unknown_sublist more).length_le.trans one, ?_⟩
  rcases Sizes.same_or_all_given more one with same | all
  · rw [Sizes.known, List.filterMap_congr same]
    exact stated
  · have agrees : m.Agrees given' (Terms.names ms) := fun x hx =>
      agrees x (Terms.names_eq_flatMap ts ▸ List.mem_flatMap_of_mem mem hx)
    have nonzero : 0 ∉ given'.known (Terms.names ms) := by
      intro zero
      obtain ⟨x, -, hx⟩ := List.mem_filterMap.mp zero
      exact positive x 0 hx rfl
    rw [Shape.exists_product? nonzero, ← Sizes.product_eq_known agrees all]
    exact bounded ms s mem

end Terms

namespace Pattern

/-- Adding sizes that a solution has does not change that it is one. -/
lemma Solvable.extend (h : p.Solvable kind shape explicit m)
    (bounded : ∀ d ∈ shape, d ≤ Shape.sizeLimit) (more : ∀ e ∈ explicit, e ∈ explicit')
    (sized : ∀ n k, (n, k) ∈ explicit' → (n, k) ∈ explicit ∨ m[n]? = some k ∧ k ≠ 0) :
    p.Solvable kind shape explicit' m := by
  have agrees : ∀ n k, (n, k) ∈ explicit' → n ∈ m → m[n]? = some k := by
    intro n k mem bound
    rcases sized n k mem with listed | ⟨size, -⟩
    · exact h.consistent.agrees n k listed bound
    · exact size
  have coherent : explicit'.Coherent := by
    refine ⟨fun n k mem => ?_, fun n k k' mem mem' => ?_⟩
    · exact (sized n k mem).elim (h.positive n k) And.right
    · by_cases bound : n ∈ m
      · exact Option.some.inj ((agrees n k mem bound).symm.trans (agrees n k' mem' bound))
      · have old {size : Nat} (mem : (n, size) ∈ explicit') : (n, size) ∈ explicit :=
          (sized n size mem).resolve_right fun h => bound (Sizes.mem_iff.mpr ⟨size, h.1⟩)
        exact h.agree n k k' (old mem) (old mem')
  obtain ⟨given, collected⟩ := (Resolution.exists_collect p.text).mpr h.coherent
  obtain ⟨given', collected'⟩ := (Resolution.exists_collect p.text).mpr coherent
  have listed := Resolution.collected_listed collected
  have listed' := Resolution.collected_listed collected'
  refine { h with
    positive := coherent.positive
    agree := coherent.agree
    determined := (Terms.determinedBy_iff listed').mpr ?_
    consistent := { h.consistent with agrees } }
  refine ((Terms.determinedBy_iff listed).mp h.determined).extend (m := m) ?_ ?_ ?_ ?_
  · intro n k hk
    exact (listed' n k).mpr (more _ ((listed n k).mp hk))
  · intro n k hk
    exact coherent.positive n k ((listed' n k).mp hk)
  · intro n hn k hk
    exact agrees n k ((listed' n k).mp hk) ((h.consistent.names n).mpr (.inl hn))
  · intro ms s mem
    exact bounded _ (h.consistent.faces.product_mem mem)

end Pattern

namespace Resolution

/-- Explicit sizes are a set of constraints. How they are listed matters only for the message of an
error, and a resolution stays the same when any of its positive sizes are added. -/
theorem solve_entries (kind : Kind) (p : Pattern) (shape : Shape) (explicit : SizeList)
    (valid : p.check kind explicit.names = .ok ()) (bounded : ∀ d ∈ shape, d ≤ Shape.sizeLimit) :
    (∀ explicit', (∀ e, e ∈ explicit' ↔ e ∈ explicit) →
      (solve kind p shape explicit').Alike Eq (solve kind p shape explicit))
    ∧ ∀ r, solve kind p shape explicit = .ok r → ∀ explicit', (∀ e ∈ explicit, e ∈ explicit') →
      (∀ n k, (n, k) ∈ explicit' → (n, k) ∈ explicit ∨ r.sizes[n]? = some k ∧ k ≠ 0) →
      solve kind p shape explicit' = .ok r := by
  refine ⟨fun explicit' same => alike_of_entries kind p shape same,
    fun r solved explicit' more sized => ?_⟩
  have valid := Pattern.check_eq_ok.mp valid
  have valid' : p.Valid kind explicit'.names := by
    refine valid.change_given fun n _ _ given => ?_
    obtain ⟨k, hk⟩ := SizeList.mem_names.mp given
    exact SizeList.mem_names.mpr ⟨k, more _ hk⟩
  obtain ⟨solvable, covered, output⟩ := (solve_eq_ok valid).mp solved
  exact (solve_eq_ok valid').mpr ⟨solvable.extend bounded more sized, covered, output⟩

/-- The size that is found for a name of a group can be given as well, in any place and more than
once. Sizes that contradict each other are refused in either order. -/
theorem solve_entries_split :
    (∃ r, solve .rearranging splitPattern [6] [("h", 2)] = .ok r
      ∧ solve .rearranging splitPattern [6] [("w", 3), ("h", 2), ("w", 3)] = .ok r)
    ∧ (solve .rearranging splitPattern [6] [("h", 3), ("h", 2)]).Alike Eq
      (solve .rearranging splitPattern [6] [("h", 2), ("h", 3)]) := by
  have valid : splitPattern.check .rearranging (SizeList.names [("h", 2)]) = .ok () := by
    decide +kernel
  have valid' : splitPattern.check .rearranging (SizeList.names [("h", 2), ("h", 3)]) = .ok () := by
    decide +kernel
  have bounded : ∀ d ∈ [6], d ≤ Shape.sizeLimit := by decide
  have found : (solve .rearranging splitPattern [6] [("h", 2)]).map (·.sizes["w"]?)
      = .ok (some 3) := by decide +kernel
  obtain ⟨r, solved, size⟩ := map_eq_ok.mp found
  refine ⟨⟨r, solved, ?_⟩, ?_⟩
  · obtain ⟨-, extended⟩ := solve_entries .rearranging splitPattern [6] [("h", 2)] valid bounded
    refine extended r solved _ (by decide) fun n k mem => ?_
    have entries : (n, k) = ("h", 2) ∨ (n, k) = ("w", 3) := by
      simp only [List.mem_cons, List.not_mem_nil, or_false] at mem
      tauto
    rcases entries with same | same
    · exact .inl (same ▸ List.mem_cons_self)
    · cases same
      exact .inr ⟨size, by decide⟩
  · obtain ⟨reordered, -⟩ := solve_entries .rearranging splitPattern [6] _ valid' bounded
    exact reordered _ fun e => (List.Perm.swap ("h", 2) ("h", 3) []).mem_iff

end Resolution

end AxisNotation
