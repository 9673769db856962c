import AxisNotation.Proofs.Resolution.OutputShape

/-!
# Solving for the sizes of axes

A valid pattern has a resolution exactly when there are consistent sizes that the given ones
determine (`Resolution.solve_eq_ok`), and these are then unique (`Resolution.unique_of_solvable`).
In any other case the solver rejects the pattern (`Resolution.settles_solve`).
-/

namespace AxisNotation

/-- In every group of a side at most one name has no explicit size, and the product of the explicit
sizes can be stated. -/
def Terms.DeterminedBy (explicit : SizeList) (ts : Terms) : Prop :=
  ∀ ms s, .group ms s ∈ ts →
    ((Terms.names ms).filter fun n => (explicit.lookup n).isNone).length ≤ 1
      ∧ ∃ k, Shape.product? ((Terms.names ms).filterMap (explicit.lookup ·)) = some k

/-- Explicit sizes are coherent when all are positive and no name has two. -/
structure SizeList.Coherent (explicit : SizeList) : Prop where
  positive : ∀ n size, (n, size) ∈ explicit → size ≠ 0
  agree : ∀ n k k', (n, k) ∈ explicit → (n, k') ∈ explicit → k = k'

/-- What a resolution of a pattern on a shape asks for, and the sizes that it finds. -/
structure Pattern.Solvable (kind : Kind) (p : Pattern) (shape : Shape) (explicit : SizeList)
    (m : Sizes) : Prop where
  positive : ∀ n size, (n, size) ∈ explicit → size ≠ 0
  agree : ∀ n k k', (n, k) ∈ explicit → (n, k') ∈ explicit → k = k'
  determined : p.input.DeterminedBy explicit
  consistent : p.Consistent shape explicit m
  fits : p.output.Fits m (p.input.captured shape)
  counted : kind = .rearranging → (∃ k, Shape.product? shape = some k)
    ∧ ∃ k, Shape.product? (p.output.extents (p.input.captured shape).length
      (m.ofAxis (p.input.captured shape))) = some k

variable {kind : Kind} {p : Pattern} {shape : Shape} {explicit : SizeList} {given m m' : Sizes}
  {b b' : Binding} {pattern : String}

lemma Pattern.Solvable.coherent (h : p.Solvable kind shape explicit m) : explicit.Coherent :=
  ⟨h.positive, h.agree⟩

lemma Terms.countP_isEllipsis_le (ts : Terms) : ts.countP Term.isEllipsis ≤ Terms.ellipses ts := by
  induction ts with
  | nil => exact Nat.zero_le 0
  | cons t ts ih =>
    rw [Terms.ellipses, List.countP_cons, Nat.add_comm]
    refine Nat.add_le_add ?_ ih
    cases t with
    | ellipsis s => exact Nat.le_refl 1
    | _ => exact Nat.zero_le _

/-- The collected sizes are those that are found by looking through the list. -/
lemma SizeList.lookup_eq
    (listed : ∀ (n : String) (k : Nat), given[n]? = some k ↔ (n, k) ∈ explicit) (n : String) :
    explicit.lookup n = given[n]? := by
  cases found : explicit.lookup n with
  | some k =>
    obtain ⟨before, after, rfl, -⟩ := List.lookup_eq_some_iff.mp found
    exact ((listed n k).mpr (List.mem_append_right _ List.mem_cons_self)).symm
  | none =>
    rw [List.lookup_eq_none_iff] at found
    symm
    rw [Option.eq_none_iff_forall_ne_some]
    intro k hk
    have differs := found _ ((listed n k).mp hk)
    simp at differs

lemma Terms.determinedBy_iff
    (listed : ∀ (n : String) (k : Nat), given[n]? = some k ↔ (n, k) ∈ explicit) {ts : Terms} :
    Terms.DeterminedBy explicit ts ↔ Terms.Determined given ts := by
  simp only [Terms.DeterminedBy, Terms.Determined, Sizes.unknown, Sizes.known,
    SizeList.lookup_eq listed]

lemma SizeList.mem_names {n : String} : n ∈ explicit.names ↔ ∃ k, (n, k) ∈ explicit := by
  simp [SizeList.names]

namespace Pattern.Valid

variable {names : List String}

lemma one_ellipsis (h : p.Valid kind names) (side : Side) :
    (p.side side).countP Term.isEllipsis ≤ 1 :=
  Nat.le_trans (Terms.countP_isEllipsis_le _) (h.oneEllipsis side)

/-- A name that only the output has is new, and its size is given. -/
lemma repeating_of_new (h : p.Valid kind names) {n : String} (output : n ∈ p.output.names)
    (input : n ∉ p.input.names) : kind = .repeating ∧ n ∈ names := by
  have namesMatch := h.namesMatch
  cases kind with
  | rearranging => exact absurd (namesMatch.2 output) input
  | reducing => exact absurd (namesMatch output) input
  | repeating => exact ⟨rfl, namesMatch.2 n output input⟩

end Pattern.Valid

namespace Resolution

/-- Binds the names of both sides. -/
def bindAll (kind : Kind) (p : Pattern) (shape : Shape) (given : Sizes) : Outcome Binding := do
  let bound ← bindInput p.text given p.input shape
  if kind = .repeating then bindNew p.text given bound p.output.names else .ok bound

lemma solve_eq (kind : Kind) (p : Pattern) (shape : Shape) (explicit : SizeList) :
    solve kind p shape explicit = do
      let given ← collect p.text ∅ explicit
      let bound ← bindAll kind p shape given
      let output ← shapeOf p.text bound p.output
      if kind = .rearranging then conserve p.text shape output
      return ⟨bound.sizes, bound.covered, output⟩ := by
  cases kind <;> simp only [solve, bindAll, bind_assoc] <;> rfl

/-- Binding new names keeps what is bound and gives each new name its given size. -/
lemma bindNew_sound {names : List String} (h : bindNew pattern given b names = .ok b') :
    b'.covered = b.covered ∧ (∀ n, n ∈ b.sizes ∨ n ∉ names → b'.sizes[n]? = b.sizes[n]?)
      ∧ ∀ n ∈ names, n ∉ b.sizes → ∃ k, given[n]? = some k ∧ b'.sizes[n]? = some k := by
  induction names generalizing b with
  | nil =>
    cases h
    exact ⟨rfl, fun _ _ => rfl, nofun⟩
  | cons name names ih =>
    rw [bindNew] at h
    split at h
    · next mem =>
      obtain ⟨covered, kept, new⟩ := ih h
      refine ⟨covered, fun n hn => kept n (hn.imp_right fun h h' => h (List.mem_cons_of_mem _ h')),
        fun n hn fresh => ?_⟩
      cases hn with
      | head => exact absurd mem fresh
      | tail _ hn => exact new n hn fresh
    · next absent =>
      simp only [bind_eq_ok, Outcome.orReject_eq_ok] at h
      obtain ⟨k, hk, h⟩ := h
      obtain ⟨covered, kept, new⟩ := ih h
      have bound : name ∈ (b.set name k).sizes :=
        Sizes.mem_iff.mpr ⟨k, by rw [Binding.getElem?_set, if_pos rfl]⟩
      have others {n : String} (e : n ≠ name) : (b.set name k).sizes[n]? = b.sizes[n]? := by
        rw [Binding.getElem?_set, if_neg e]
      refine ⟨covered, fun n hn => ?_, fun n hn fresh => ?_⟩
      · have e : n ≠ name := by
          rintro rfl
          exact hn.elim absent fun h => h List.mem_cons_self
        rw [kept n (hn.imp (fun h => ?_) fun h h' => h (List.mem_cons_of_mem _ h')), others e]
        rwa [Sizes.mem_iff, others e, ← Sizes.mem_iff]
      · by_cases e : n = name
        · subst e
          exact ⟨k, hk, by rw [kept n (.inl bound), Binding.getElem?_set, if_pos rfl]⟩
        · refine new n ((List.mem_cons.mp hn).resolve_left e) ?_
          rwa [Sizes.mem_iff, others e, ← Sizes.mem_iff]

lemma bindNew_complete {names : List String}
    (h : ∀ n ∈ names, n ∉ b.sizes → ∃ k, given[n]? = some k) :
    ∃ b', bindNew pattern given b names = .ok b' := by
  induction names generalizing b with
  | nil => exact ⟨b, rfl⟩
  | cons name names ih =>
    obtain ⟨first, rest⟩ := List.forall_mem_cons.mp h
    rw [bindNew]
    split
    · exact ih rest
    · next absent =>
      obtain ⟨k, hk⟩ := first absent
      obtain ⟨b', h⟩ : ∃ b', bindNew pattern given (b.set name k) names = .ok b' := by
        refine ih fun n hn fresh => rest n hn fun mem => fresh ?_
        rw [Sizes.mem_iff, Binding.getElem?_set]
        split
        · exact ⟨k, rfl⟩
        · exact Sizes.mem_iff.mp mem
      exact ⟨b', bind_eq_ok.mpr ⟨k, Outcome.orReject_eq_ok.mpr hk, h⟩⟩

lemma settles_bindNew {names : List String} : (bindNew pattern given b names).Settles := by
  induction names generalizing b with
  | nil => exact nofun
  | cons name names ih =>
    rw [bindNew]
    split
    · exact ih
    · exact (Outcome.settles_orReject _ _).bind fun _ _ => ih

/-- Binding settles without any rule for the pattern, if its input has one ellipsis at most. -/
lemma settles_bindAll (one : p.input.countP Term.isEllipsis ≤ 1) :
    (bindAll kind p shape given).Settles := by
  refine (settles_bindInput one).bind fun _ _ => ?_
  split
  · exact settles_bindNew
  · exact nofun

/-- The names of the input are bound by matching it, and the others to their given sizes. -/
lemma bindAll_cases {names : List String} (valid : p.Valid kind names)
    (h : bindAll kind p shape given = .ok b) :
    ∃ c, bindInput p.text given p.input shape = .ok c ∧ b.covered = c.covered
      ∧ (∀ n ∈ p.input.names, b.sizes[n]? = c.sizes[n]?)
      ∧ (∀ n ∈ p.output.names, n ∉ p.input.names →
        ∃ k, given[n]? = some k ∧ b.sizes[n]? = some k)
      ∧ ∀ n, n ∉ p.input.names → n ∉ p.output.names → b.sizes[n]? = none := by
  obtain ⟨c, hc, h⟩ := bind_eq_ok.mp h
  obtain ⟨ext, -⟩ := bindInput_sound (valid.distinct .input) (valid.one_ellipsis .input) hc
  have absent (n : String) (hn : n ∉ p.input.names) : c.sizes[n]? = none :=
    (ext.others n hn).trans (sizes_empty n)
  refine ⟨c, hc, ?_⟩
  split at h
  · obtain ⟨covered, kept, new⟩ := bindNew_sound h
    refine ⟨covered, fun n hn => kept n (.inl (ext.bound n hn)), fun n output input => ?_,
      fun n input output => ?_⟩
    · exact new n output (Sizes.not_mem_iff.mpr (absent n input))
    · rw [kept n (.inr output), absent n input]
  · next other =>
    cases h
    refine ⟨rfl, fun _ _ => rfl, fun n output input => ?_, fun n input _ => absent n input⟩
    exact absurd (valid.repeating_of_new output input).1 other

section Valid

variable (valid : p.Valid kind explicit.names)
  (listed : ∀ (n : String) (k : Nat), given[n]? = some k ↔ (n, k) ∈ explicit)

include valid listed

lemma bindAll_sound (h : bindAll kind p shape given = .ok b) :
    p.Consistent shape explicit b.sizes ∧ b.covered = p.input.captured shape
      ∧ p.input.DeterminedBy explicit := by
  obtain ⟨c, hc, covered, kept, new, others⟩ := bindAll_cases valid h
  obtain ⟨ext, determined, captured, faces⟩ :=
    bindInput_sound (valid.distinct .input) (valid.one_ellipsis .input) hc
  have bound (n : String) (hn : n ∈ p.input.names) : n ∈ b.sizes := by
    rw [Sizes.mem_iff, kept n hn, ← Sizes.mem_iff]
    exact ext.bound n hn
  refine ⟨⟨fun n => ?_, faces.congr fun n hn => (kept n hn).symm, fun n size mem hn => ?_⟩,
    covered.trans captured, (Terms.determinedBy_iff listed).mpr determined⟩
  · constructor
    · intro hn
      by_contra neither
      obtain ⟨input, output⟩ := not_or.mp neither
      exact Sizes.not_mem_iff.mpr (others n input output) hn
    · intro hn
      by_cases input : n ∈ p.input.names
      · exact bound n input
      · obtain ⟨k, -, hk⟩ := new n (hn.resolve_left input) input
        exact Sizes.mem_iff.mpr ⟨k, hk⟩
  · have given_n := (listed n size).mpr mem
    by_cases input : n ∈ p.input.names
    · rw [kept n input, ext.agrees n input size given_n]
    · by_cases output : n ∈ p.output.names
      · obtain ⟨k, hk, hk'⟩ := new n output input
        rw [hk', ← hk, given_n]
      · exact absurd hn (Sizes.not_mem_iff.mpr (others n input output))

/-- Binding finds every consistent choice of sizes, so there is only one. -/
lemma bindAll_complete (positive : ∀ n size, (n, size) ∈ explicit → size ≠ 0)
    (determined : p.input.DeterminedBy explicit) (h : p.Consistent shape explicit m) :
    ∃ b, bindAll kind p shape given = .ok b ∧ b.sizes = m := by
  have agrees {names : List String} (bound : ∀ n ∈ names, n ∈ m) : m.Agrees given names :=
    fun n hn k hk => h.agrees n k ((listed n k).mp hk) (bound n hn)
  have bound (n : String) (hn : n ∈ p.input.names) : n ∈ m := (h.names n).mpr (.inl hn)
  obtain ⟨c, hc, sizes⟩ : ∃ c, bindInput p.text given p.input shape = .ok c
      ∧ ∀ n ∈ p.input.names, c.sizes[n]? = m[n]? :=
    bindInput_complete (valid.distinct .input) (valid.one_ellipsis .input)
      (fun n k hk => positive n k ((listed n k).mp hk)) (agrees bound) bound
      ((Terms.determinedBy_iff listed).mp determined) h.faces
  obtain ⟨b, hb⟩ : ∃ b, bindAll kind p shape given = .ok b := by
    simp only [bindAll, bind_eq_ok]
    split
    · obtain ⟨b, hb⟩ : ∃ b, bindNew p.text given c p.output.names = .ok b := by
        refine bindNew_complete fun n output absent => ?_
        have input : n ∉ p.input.names := by
          intro input
          obtain ⟨k, hk⟩ := Sizes.mem_iff.mp (bound n input)
          exact absent (Sizes.mem_iff.mpr ⟨k, (sizes n input).trans hk⟩)
        obtain ⟨k, hk⟩ := SizeList.mem_names.mp (valid.repeating_of_new output input).2
        exact ⟨k, (listed n k).mpr hk⟩
      exact ⟨b, c, hc, hb⟩
    · exact ⟨c, c, hc, rfl⟩
  -- a name of the input has the size that faces its dimension, any other its given size
  refine ⟨b, hb, Std.ExtTreeMap.ext_getElem? fun n => ?_⟩
  obtain ⟨c', hc', -, kept, new, others⟩ := bindAll_cases valid hb
  obtain rfl : c = c' := Except.ok.inj (hc.symm.trans hc')
  by_cases input : n ∈ p.input.names
  · rw [kept n input, sizes n input]
  · by_cases output : n ∈ p.output.names
    · obtain ⟨k, hk, hk'⟩ := new n output input
      rw [hk', h.agrees n k ((listed n k).mp hk) ((h.names n).mpr (.inr output))]
    · have absent : n ∉ m := fun hn => ((h.names n).mp hn).elim input output
      rw [others n input output, Sizes.not_mem_iff.mp absent]

end Valid

/-- Once all names are bound, each new name of the output has an explicit size, whatever names the
pattern was checked with. -/
lemma valid_of_bindAll {names : List String} (valid : p.Valid kind names)
    (listed : ∀ (n : String) (k : Nat), given[n]? = some k ↔ (n, k) ∈ explicit)
    (h : bindAll kind p shape given = .ok b) : p.Valid kind explicit.names := by
  obtain ⟨-, -, -, -, new, -⟩ := bindAll_cases valid h
  refine valid.change_given fun n output input _ => ?_
  obtain ⟨k, hk, -⟩ := new n output input
  exact SizeList.mem_names.mpr ⟨k, (listed n k).mp hk⟩

/-! ## The whole resolution -/

lemma conserve_eq_ok {input output : Shape} {u : Unit} : conserve pattern input output = .ok u
    ↔ ∃ k, Shape.product? input = some k ∧ Shape.product? output = some k := by
  simp only [conserve, bind_eq_ok, product_eq_ok, Outcome.require_eq_ok]
  constructor
  · rintro ⟨k, hk, _, hk', rfl⟩
    exact ⟨k, hk, hk'⟩
  · rintro ⟨k, hk, hk'⟩
    exact ⟨k, hk, k, hk', rfl⟩

lemma elements_output {names : List String} (valid : p.Valid .rearranging names)
    (h : p.Consistent shape explicit m) :
    (p.output.extents (p.input.captured shape).length
      (m.ofAxis (p.input.captured shape))).elements = shape.elements := by
  conv => rhs; rw [← h.faces.extents_eq fun t ht => valid.ellipses_of_single ht]
  rw [Terms.elements_extents, Terms.elements_extents, Axis.volume, Axis.volume]
  exact ((valid.perm_axes _).map _).prod_eq

lemma conserving_eq_ok {output : Shape} {r r' : Resolution} :
    (do if kind = .rearranging then conserve pattern shape output
        return r' : Outcome Resolution) = .ok r
      ↔ (kind = .rearranging → ∃ k, Shape.product? shape = some k ∧ Shape.product? output = some k)
        ∧ r' = r := by
  split
  · next rearranging =>
    simp only [bind_eq_ok, conserve_eq_ok, pure_eq_ok, rearranging, forall_const, exists_and_right,
      exists_const]
  · next other =>
    rw [pure_eq_ok]
    exact ⟨fun h => ⟨fun e => absurd e other, h⟩, fun h => h.2⟩

lemma collected_listed (h : collect pattern ∅ explicit = .ok given) (n : String) (k : Nat) :
    given[n]? = some k ↔ (n, k) ∈ explicit := by
  rw [(collect_sound h).2]
  simp

/-- Explicit sizes are collected exactly when they are coherent. -/
lemma exists_collect (pattern : String) :
    (∃ given, collect pattern ∅ explicit = .ok given) ↔ explicit.Coherent := by
  constructor
  · rintro ⟨given, collected⟩
    have listed := collected_listed collected
    refine ⟨(collect_sound collected).1, fun n k k' mem mem' => ?_⟩
    exact Option.some.inj (((listed n k).mpr mem).symm.trans ((listed n k').mpr mem'))
  · intro coherent
    refine collect_complete coherent.positive fun n k k' hk hk' => coherent.agree n k k' ?_ ?_
    · simpa using hk
    · simpa using hk'

/-- The solver gives a resolution exactly when the sizes in it are a solution. -/
theorem solve_eq_ok (valid : p.Valid kind explicit.names) {r : Resolution} :
    solve kind p shape explicit = .ok r ↔ p.Solvable kind shape explicit r.sizes
      ∧ r.covered = p.input.captured shape
      ∧ r.outputShape = p.output.extents r.covered.length (r.sizes.ofAxis r.covered) := by
  rw [solve_eq]
  simp only [bind_eq_ok, conserving_eq_ok]
  constructor
  · rintro ⟨given, collected, b, hb, output, shaped, counted, rfl⟩
    have listed := collected_listed collected
    obtain ⟨consistent, covered, determined⟩ := bindAll_sound valid listed hb
    obtain ⟨fits, rfl⟩ := (shapeOf_eq_ok fun n hn => (consistent.names n).mpr (.inr hn)).mp shaped
    refine ⟨⟨(collect_sound collected).1, fun n k k' hk hk' => ?_, determined, consistent,
      covered ▸ fits, fun rearranging => ?_⟩, covered, rfl⟩
    · exact Option.some.inj (((listed n k).mpr hk).symm.trans ((listed n k').mpr hk'))
    · obtain ⟨k, before, after⟩ := counted rearranging
      exact ⟨⟨k, before⟩, k, covered ▸ after⟩
  · rintro ⟨solvable, covered, output⟩
    obtain ⟨given, collected⟩ := (exists_collect p.text).mpr solvable.coherent
    have listed := collected_listed collected
    obtain ⟨b, hb, sizes⟩ := bindAll_complete valid listed solvable.positive solvable.determined
      solvable.consistent
    obtain ⟨consistent, covered', -⟩ := bindAll_sound valid listed hb
    -- what is bound is the resolution, since consistent sizes are found
    have same : b = ⟨r.sizes, r.covered⟩ := by
      rw [covered, ← covered', ← sizes]
    subst same
    have shaped : shapeOf p.text ⟨r.sizes, r.covered⟩ p.output = .ok r.outputShape :=
      (shapeOf_eq_ok fun n hn => (consistent.names n).mpr (.inr hn)).mpr
        ⟨covered ▸ solvable.fits, output⟩
    refine ⟨given, collected, _, hb, _, shaped, fun rearranging => ?_, rfl⟩
    subst rearranging
    obtain ⟨⟨k, before⟩, k', after⟩ := solvable.counted rfl
    -- both sides have the same axes, so the counts agree once they can be stated
    have count := elements_output valid solvable.consistent
    rw [← Shape.eq_elements_of_product? before, ← Shape.eq_elements_of_product? after] at count
    exact ⟨k, before, by rw [output, covered, after, count]⟩

/-- A pattern that is resolved is valid with the explicit sizes, if it is with any. -/
lemma valid_of_solve {names : List String} (valid : p.Valid kind names) {r : Resolution}
    (h : solve kind p shape explicit = .ok r) : p.Valid kind explicit.names := by
  rw [solve_eq] at h
  obtain ⟨given, collected, h⟩ := bind_eq_ok.mp h
  obtain ⟨b, bound, -⟩ := bind_eq_ok.mp h
  exact valid_of_bindAll valid (collected_listed collected) bound

/-- Sizes that solve a pattern are the only consistent ones. -/
theorem unique_of_solvable (valid : p.Valid kind explicit.names)
    (solvable : p.Solvable kind shape explicit m) (h : p.Consistent shape explicit m') :
    m' = m := by
  obtain ⟨given, collected⟩ := (exists_collect p.text).mpr solvable.coherent
  have listed := collected_listed collected
  obtain ⟨b, hb, sizes⟩ := bindAll_complete valid listed solvable.positive solvable.determined
    solvable.consistent
  obtain ⟨b', hb', sizes'⟩ := bindAll_complete valid listed solvable.positive solvable.determined h
  obtain rfl : b = b' := Except.ok.inj (hb.symm.trans hb')
  exact sizes'.symm.trans sizes

lemma settles_solve_of_one (one : p.input.countP Term.isEllipsis ≤ 1) :
    (solve kind p shape explicit).Settles := by
  rw [solve_eq]
  refine settles_collect.bind fun given _ => ?_
  refine (settles_bindAll one).bind fun b _ => ?_
  refine (settles_shapeOf p.output).bind fun output _ => ?_
  have conserved : (conserve p.text shape output).Settles := by
    refine (Outcome.settles_orReject _ _).bind fun _ _ => ?_
    refine (Outcome.settles_orReject _ _).bind fun _ _ => ?_
    exact Outcome.settles_require _ _
  split
  · exact conserved.bind fun _ _ => nofun
  · exact nofun

lemma settles_solve (valid : p.Valid kind explicit.names) :
    (solve kind p shape explicit).Settles :=
  settles_solve_of_one (valid.one_ellipsis .input)

end Resolution

end AxisNotation
