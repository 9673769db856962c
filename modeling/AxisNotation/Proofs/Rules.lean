import AxisNotation.Proofs.Validity

/-!
# The requirements on a pattern

What a pattern has to satisfy for a kind of operation, in terms of all terms at any depth
(`Terms.subterms`): it is well formed (`Pattern.WellFormed`), or one of the requirements that
`Pattern.requirements` lists is violated. The rules of the check traverse the terms in other ways,
but each of them decides the requirement at its place (`Pattern.rules_decide`), so a pattern that is
not well formed is rejected for the first violated requirement with exactly its offending names
(`Pattern.check_exact`).
-/

namespace AxisNotation

/-! ## Terms at any depth -/

mutual

/-- A term and the terms inside it, at any depth. -/
def Term.subterms : Term → Terms
  | .name n s => [.name n s]
  | .group ms s => .group ms s :: Terms.subterms ms
  | .ellipsis s => [.ellipsis s]
  | .unit s => [.unit s]

/-- The terms of a list and those inside them, at any depth. -/
def Terms.subterms : Terms → Terms
  | [] => []
  | t :: ts => t.subterms ++ Terms.subterms ts

end

namespace Terms

/-- The names that occur in some terms, at any depth and as often as they occur. -/
def occurrences (ts : Terms) : List String :=
  ts.subterms.filterMap Term.name?

/-- An ellipsis occurs in the terms, at any depth. -/
def HasEllipsis (ts : Terms) : Prop :=
  ∃ s, .ellipsis s ∈ ts.subterms

/-- A group at any depth has no members. -/
def HasEmptyGroup (ts : Terms) : Prop :=
  ∃ s, .group [] s ∈ ts.subterms

/-- A group at any depth has an ellipsis in it, again at any depth. -/
def HasGroupedEllipsis (ts : Terms) : Prop :=
  ∃ ms s, .group ms s ∈ ts.subterms ∧ HasEllipsis ms

end Terms

/-! ## The traversals of the rules -/

mutual

lemma Term.names_eq_filterMap (t : Term) : t.names = t.subterms.filterMap Term.name? := by
  cases t with
  | name n s => rfl
  | group ms s =>
    rw [Term.names, Term.subterms, Terms.names_eq_occurrences ms]
    rfl
  | ellipsis s => rfl
  | unit s => rfl

lemma Terms.names_eq_occurrences (ts : Terms) : Terms.names ts = ts.occurrences := by
  cases ts with
  | nil => rfl
  | cons t ts =>
    rw [Terms.names, Term.names_eq_filterMap t, Terms.names_eq_occurrences ts, Terms.occurrences,
      Terms.occurrences, Terms.subterms, List.filterMap_append]

end

mutual

lemma Term.ellipses_eq_countP (t : Term) : t.ellipses = t.subterms.countP Term.isEllipsis := by
  cases t with
  | name n s => rfl
  | group ms s =>
    rw [Term.ellipses, Term.subterms, Terms.ellipses_eq_countP ms]
    rfl
  | ellipsis s => rfl
  | unit s => rfl

lemma Terms.ellipses_eq_countP (ts : Terms) :
    Terms.ellipses ts = ts.subterms.countP Term.isEllipsis := by
  cases ts with
  | nil => rfl
  | cons t ts =>
    rw [Terms.ellipses, Term.ellipses_eq_countP t, Terms.ellipses_eq_countP ts, Terms.subterms,
      List.countP_append]

end

mutual

lemma Term.mem_groups {ms : Terms} {s : Span} (t : Term) :
    (ms, s) ∈ t.groups ↔ .group ms s ∈ t.subterms := by
  cases t with
  | name n s => simp [Term.groups, Term.subterms]
  | group members s' =>
    simp only [Term.groups, Term.subterms, List.mem_append, List.mem_cons, List.not_mem_nil,
      or_false, Terms.mem_groups members, Prod.mk.injEq, Term.group.injEq]
    exact or_comm
  | ellipsis s => simp [Term.groups, Term.subterms]
  | unit s => simp [Term.groups, Term.subterms]

lemma Terms.mem_groups {ms : Terms} {s : Span} (ts : Terms) :
    (ms, s) ∈ Terms.groups ts ↔ .group ms s ∈ ts.subterms := by
  cases ts with
  | nil => simp [Terms.groups, Terms.subterms]
  | cons t ts =>
    rw [Terms.groups, Terms.subterms, List.mem_append, List.mem_append, Term.mem_groups t,
      Terms.mem_groups ts]

end

mutual

lemma Term.groups_of_mem {g : Terms × Span} (t : Term) (h : g ∈ t.groups) :
    Terms.groups g.1 ⊆ t.groups := by
  cases t with
  | name n s => cases h
  | group ms s =>
    rcases List.mem_append.mp h with inner | self
    · exact List.Subset.trans (Terms.groups_of_mem ms inner) (List.subset_append_left _ _)
    · cases List.mem_singleton.mp self
      exact List.subset_append_left _ _
  | ellipsis s => cases h
  | unit s => cases h

/-- The groups inside a group are groups of the terms around it. -/
lemma Terms.groups_of_mem {g : Terms × Span} (ts : Terms) (h : g ∈ Terms.groups ts) :
    Terms.groups g.1 ⊆ Terms.groups ts := by
  cases ts with
  | nil => cases h
  | cons t ts =>
    rcases List.mem_append.mp h with first | rest
    · exact List.Subset.trans (Term.groups_of_mem t first) (List.subset_append_left _ _)
    · exact List.Subset.trans (Terms.groups_of_mem ts rest) (List.subset_append_right _ _)

end

namespace Terms

variable {ts : Terms}

lemma ellipses_pos : 0 < Terms.ellipses ts ↔ ts.HasEllipsis := by
  rw [ellipses_eq_countP, List.countP_pos_iff]
  constructor
  · rintro ⟨t, ht, h⟩
    cases t with
    | ellipsis s => exact ⟨s, ht⟩
    | name n s => cases h
    | group ms s => cases h
    | unit s => cases h
  · rintro ⟨s, hs⟩
    exact ⟨.ellipsis s, hs, rfl⟩

lemma hasEmptyGroup_iff : ts.hasEmptyGroup = true ↔ ts.HasEmptyGroup := by
  rw [hasEmptyGroup, List.any_eq_true]
  constructor
  · rintro ⟨⟨ms, s⟩, hg, empty⟩
    rw [List.isEmpty_iff] at empty
    subst empty
    exact ⟨s, (mem_groups ts).mp hg⟩
  · rintro ⟨s, hs⟩
    exact ⟨⟨[], s⟩, (mem_groups ts).mpr hs, rfl⟩

lemma mem_subterms {t : Term} (h : t ∈ ts) : t ∈ ts.subterms := by
  induction h with
  | head ts =>
    refine List.mem_append_left _ ?_
    cases t with
    | name n s => exact List.mem_cons_self
    | group ms s => exact List.mem_cons_self
    | ellipsis s => exact List.mem_cons_self
    | unit s => exact List.mem_cons_self
  | tail u h ih => exact List.mem_append_right _ ih

/-- Looking only at the members of each group finds the ellipses at any depth, since an ellipsis
inside a group is a member of some group. -/
lemma hasOpenGroup_iff : ts.hasOpenGroup = true ↔ ts.HasGroupedEllipsis := by
  rw [hasOpenGroup, List.any_eq_true]
  constructor
  · rintro ⟨⟨ms, s⟩, hg, is_open⟩
    obtain ⟨t, ht, is_ellipsis⟩ := List.any_eq_true.mp is_open
    cases t with
    | ellipsis e => exact ⟨ms, s, (mem_groups ts).mp hg, e, mem_subterms ht⟩
    | name n e => cases is_ellipsis
    | group members e => cases is_ellipsis
    | unit e => cases is_ellipsis
  · rintro ⟨ms, s, hs, grouped⟩
    have hg := (mem_groups ts).mpr hs
    by_contra none
    have closed : ∀ g ∈ Terms.groups ts, Terms.isOpen g.1 = false :=
      fun g hg => Bool.eq_false_iff.mpr fun is_open => none ⟨g, hg, is_open⟩
    have no_ellipsis : Terms.ellipses ms = 0 :=
      ellipses_eq_zero (fun g h => closed g (groups_of_mem ts hg h)) (closed _ hg)
    exact (ellipses_pos.mpr grouped).ne' no_ellipsis

end Terms

/-! ## Well-formed patterns and their requirements -/

/-- Rearranging needs the same names on both sides, reducing has no new names on the output, and
repeating keeps the names of the input and has sizes for the others. -/
def Pattern.OccurrencesMatch (p : Pattern) (given : List String) : Kind → Prop
  | .rearranging => ∀ n, n ∈ p.input.occurrences ↔ n ∈ p.output.occurrences
  | .reducing => ∀ n ∈ p.output.occurrences, n ∈ p.input.occurrences
  | .repeating => (∀ n ∈ p.input.occurrences, n ∈ p.output.occurrences)
    ∧ ∀ n ∈ p.output.occurrences, n ∉ p.input.occurrences → n ∈ given

/-- What a pattern has to satisfy for a kind of operation, where sizes are given for some names. -/
structure Pattern.WellFormed (kind : Kind) (p : Pattern) (given : List String) : Prop where
  legal : ∀ side, ∀ n ∈ (p.side side).occurrences, Name.isLegal n = true
  oneEllipsis : ∀ side, (p.side side).subterms.countP Term.isEllipsis ≤ 1
  noEmptyGroup : ∀ side, ¬ (p.side side).HasEmptyGroup
  noGroupedEllipsis : ¬ p.input.HasGroupedEllipsis
  ellipsisKnown : p.output.HasEllipsis → p.input.HasEllipsis
  ellipsisKept : kind ≠ .reducing → p.input.HasEllipsis → p.output.HasEllipsis
  namesMatch : p.OccurrencesMatch given kind
  distinct : ∀ side, (p.side side).occurrences.Nodup

/-- A requirement on a pattern: the fault that it guards against, whether the pattern has it, and
the names at fault. -/
structure Requirement where
  cause : AxisCause
  violated : Prop
  offending : Set String

namespace Requirement

/-- The requirement that there are no names of some sort. -/
def noNames (cause : AxisCause) (offending : Set String) : Requirement :=
  ⟨cause, offending.Nonempty, offending⟩

/-- A requirement that concerns no names. -/
def form (cause : AxisCause) (violated : Prop) : Requirement :=
  ⟨cause, violated, ∅⟩

end Requirement

namespace Pattern

/-- The requirements on the form of a side. -/
def formRequirements (p : Pattern) (side : Side) : List Requirement :=
  let ellipses := (p.side side).subterms.countP Term.isEllipsis
  [.form (.severalEllipses side ellipses) (1 < ellipses),
    .form (.emptyGroup side) (p.side side).HasEmptyGroup,
    .form .groupedEllipsis (side = .input ∧ (p.side side).HasGroupedEllipsis)]

/-- The requirements on the names of both sides. -/
def nameRequirements (p : Pattern) (given : List String) : Kind → List Requirement
  | .rearranging =>
    [.noNames .oneSided {n | ¬(n ∈ p.input.occurrences ↔ n ∈ p.output.occurrences)}]
  | .reducing => [.noNames .introduced {n | n ∈ p.output.occurrences ∧ n ∉ p.input.occurrences}]
  | .repeating =>
    [.noNames .dropped {n | n ∈ p.input.occurrences ∧ n ∉ p.output.occurrences},
      .noNames .unsized {n | n ∈ p.output.occurrences ∧ n ∉ p.input.occurrences ∧ n ∉ given}]

/-- The requirements on the ellipses of both sides. -/
def ellipsisRequirements (p : Pattern) (kind : Kind) : List Requirement :=
  [.form .ellipsisIntroduced (¬p.input.HasEllipsis ∧ p.output.HasEllipsis),
    .form .ellipsisDropped (kind ≠ .reducing ∧ p.input.HasEllipsis ∧ ¬p.output.HasEllipsis)]

/-- All requirements in the order in which they are checked. -/
def requirements (p : Pattern) (kind : Kind) (given : List String) : List Requirement :=
  .noNames .illegalNames {n | (∃ side, n ∈ (p.side side).occurrences) ∧ Name.isLegal n = false}
    :: p.formRequirements .input ++ p.formRequirements .output
    ++ p.ellipsisRequirements kind ++ p.nameRequirements given kind
    ++ [.noNames (.repeated .input) {n | 1 < p.input.occurrences.count n},
      .noNames (.repeated .output) {n | 1 < p.output.occurrences.count n}]

end Pattern

/-! ## Rules and requirements -/

namespace Rule

/-- A rule decides a requirement when it is broken exactly if the requirement is violated, and names
the same cause and the same names. -/
structure Decides (rule : Rule) (r : Requirement) : Prop where
  cause : rule.cause = r.cause
  broken : rule.broken = true ↔ r.violated
  offenders : ∀ n, n ∈ rule.offenders ↔ n ∈ r.offending

lemma decides_noNames {cause : AxisCause} {offenders : List String} {offending : Set String}
    (h : ∀ n, n ∈ offenders ↔ n ∈ offending) :
    (noNames cause offenders).Decides (.noNames cause offending) where
  cause := rfl
  broken := by
    cases offenders with
    | nil => exact ⟨nofun, fun ⟨n, hn⟩ => nomatch (h n).mpr hn⟩
    | cons n ns => exact ⟨fun _ => ⟨n, (h n).mp List.mem_cons_self⟩, fun _ => rfl⟩
  offenders := h

lemma decides_form {cause : AxisCause} {broken : Bool} {violated : Prop}
    (h : broken = true ↔ violated) : (form cause broken).Decides (.form cause violated) :=
  ⟨rfl, h, fun _ => ⟨nofun, nofun⟩⟩

/-- The check finds the first requirement that is violated. -/
lemma check_first {pattern : String} {rules : List Rule} {requirements : List Requirement}
    (decides : List.Forall₂ Decides rules requirements)
    (failed : check pattern rules ≠ .ok ()) :
    ∃ earlier r later axes, requirements = earlier ++ r :: later
      ∧ (∀ q ∈ earlier, ¬q.violated) ∧ r.violated
      ∧ check pattern rules = .error (.axis pattern r.cause axes)
      ∧ axes.Pairwise (· < ·) ∧ ∀ n, n ∈ axes ↔ n ∈ r.offending := by
  induction decides with
  | nil => exact (failed rfl).elim
  | @cons rule r rules requirements first rest ih =>
    cases broken : rule.broken with
    | true =>
      have found : check pattern (rule :: rules)
          = .error (.ofNames pattern rule.cause rule.offenders) := by
        rw [check, List.find?_cons_of_pos broken]
      refine ⟨[], r, requirements, Name.sorted rule.offenders, rfl, nofun,
        first.broken.mp broken, ?_, ?_, ?_⟩
      · rw [found, PatternError.ofNames, first.cause]
      · exact (Name.pairwise_sorted _).imp fun h => compare_lt_iff_lt.mp h
      · intro n
        rw [Name.mem_sorted, first.offenders]
    | false =>
      have skipped : check pattern (rule :: rules) = check pattern rules := by
        rw [check, check, List.find?_cons_of_neg (by rw [broken]; exact nofun)]
      rw [skipped] at failed ⊢
      obtain ⟨earlier, r', later, axes, rfl, kept, others⟩ := ih failed
      refine ⟨r :: earlier, r', later, axes, rfl, List.forall_mem_cons.mpr ⟨?_, kept⟩, others⟩
      rw [← first.broken, broken]
      exact nofun

end Rule

namespace Pattern

variable {p : Pattern} {kind : Kind} {given : List String}

lemma namesMatch_iff : p.NamesMatch given kind ↔ p.OccurrencesMatch given kind := by
  cases kind with
  | rearranging =>
    simp only [NamesMatch, OccurrencesMatch, Terms.names_eq_occurrences]
    constructor
    · rintro ⟨kept, known⟩ n
      exact ⟨@kept n, @known n⟩
    · intro h
      exact ⟨fun n => (h n).mp, fun n => (h n).mpr⟩
  | reducing =>
    simp only [NamesMatch, OccurrencesMatch, Terms.names_eq_occurrences]
    exact Iff.rfl
  | repeating =>
    simp only [NamesMatch, OccurrencesMatch, Terms.names_eq_occurrences]
    exact Iff.rfl

/-- Validity in terms of what occurs at any depth. -/
lemma valid_iff : p.Valid kind given ↔ p.WellFormed kind given := by
  constructor
  · intro h
    exact {
      legal := fun side n hn => by
        rw [← Terms.names_eq_occurrences] at hn
        cases side with
        | input => exact h.legal n (List.mem_append_left _ hn)
        | output => exact h.legal n (List.mem_append_right _ hn)
      oneEllipsis := fun side => Terms.ellipses_eq_countP _ ▸ h.oneEllipsis side
      noEmptyGroup := fun side empty =>
        Bool.false_ne_true ((h.noEmptyGroup side).symm.trans (Terms.hasEmptyGroup_iff.mpr empty))
      noGroupedEllipsis := fun grouped =>
        Bool.false_ne_true (h.noOpenGroup.symm.trans (Terms.hasOpenGroup_iff.mpr grouped))
      ellipsisKnown := fun e => Terms.ellipses_pos.mp (h.ellipsisKnown (Terms.ellipses_pos.mpr e))
      ellipsisKept := fun k e =>
        Terms.ellipses_pos.mp (h.ellipsisKept k (Terms.ellipses_pos.mpr e))
      namesMatch := namesMatch_iff.mp h.namesMatch
      distinct := fun side => Terms.names_eq_occurrences _ ▸ h.distinct side }
  · intro h
    exact {
      legal := fun n hn => by
        rcases List.mem_append.mp hn with input | output
        · exact h.legal .input n (Terms.names_eq_occurrences _ ▸ input)
        · exact h.legal .output n (Terms.names_eq_occurrences _ ▸ output)
      oneEllipsis := fun side => Terms.ellipses_eq_countP _ ▸ h.oneEllipsis side
      noEmptyGroup := fun side => Bool.eq_false_iff.mpr fun empty =>
        h.noEmptyGroup side (Terms.hasEmptyGroup_iff.mp empty)
      noOpenGroup := Bool.eq_false_iff.mpr fun grouped =>
        h.noGroupedEllipsis (Terms.hasOpenGroup_iff.mp grouped)
      ellipsisKnown := fun e => Terms.ellipses_pos.mpr (h.ellipsisKnown (Terms.ellipses_pos.mp e))
      ellipsisKept := fun k e =>
        Terms.ellipses_pos.mpr (h.ellipsisKept k (Terms.ellipses_pos.mp e))
      namesMatch := namesMatch_iff.mpr h.namesMatch
      distinct := fun side => Terms.names_eq_occurrences _ ▸ h.distinct side }

lemma formRules_decide (side : Side) :
    List.Forall₂ Rule.Decides (p.formRules side) (p.formRequirements side) := by
  refine .cons ?_ (.cons ?_ (.cons ?_ .nil))
  · rw [Terms.ellipses_eq_countP]
    exact Rule.decides_form decide_eq_true_iff
  · exact Rule.decides_form Terms.hasEmptyGroup_iff
  · refine Rule.decides_form ?_
    rw [Bool.and_eq_true, decide_eq_true_iff, Terms.hasOpenGroup_iff]

lemma ellipsisRules_decide :
    List.Forall₂ Rule.Decides (p.ellipsisRules kind) (p.ellipsisRequirements kind) := by
  have known (ts : Terms) : ts.hasEllipsis = true ↔ ts.HasEllipsis :=
    decide_eq_true_iff.trans Terms.ellipses_pos
  refine .cons (Rule.decides_form ?_) (.cons (Rule.decides_form ?_) .nil)
  · rw [Bool.and_eq_true, Bool.not_eq_true', ← Bool.not_eq_true, known, known]
  · rw [Bool.and_eq_true, Bool.and_eq_true, Bool.not_eq_true', ← Bool.not_eq_true, known, known,
      decide_eq_true_iff]

lemma mem_namesOutside {ts others : Terms} {n : String} :
    n ∈ ts.namesOutside others ↔ n ∈ ts.occurrences ∧ n ∉ others.occurrences := by
  rw [Terms.namesOutside, List.mem_filter, decide_eq_true_iff, Terms.names_eq_occurrences,
    Terms.names_eq_occurrences]

lemma occurrenceRules_decide :
    List.Forall₂ Rule.Decides (p.occurrenceRules given kind) (p.nameRequirements given kind) := by
  cases kind with
  | rearranging =>
    refine .cons (Rule.decides_noNames fun n => ?_) .nil
    rw [List.mem_append, mem_namesOutside, mem_namesOutside, Set.mem_ofPred_eq]
    tauto
  | reducing => exact .cons (Rule.decides_noNames fun n => mem_namesOutside) .nil
  | repeating =>
    refine .cons (Rule.decides_noNames fun n => mem_namesOutside)
      (.cons (Rule.decides_noNames fun n => ?_) .nil)
    rw [List.mem_filter, mem_namesOutside, decide_eq_true_iff]
    exact and_assoc

lemma repetitionRule_decides (side : Side) : (p.repetitionRule side).Decides
    (.noNames (.repeated side) {n | 1 < (p.side side).occurrences.count n}) := by
  refine Rule.decides_noNames fun n => ?_
  rw [Terms.repeatedNames, List.mem_filter, decide_eq_true_iff, Terms.names_eq_occurrences]
  exact ⟨And.right, fun h => ⟨List.count_pos_iff.mp (Nat.zero_lt_of_lt h), h⟩⟩

lemma nameRule_decides : p.nameRule.Decides (.noNames .illegalNames
    {n | (∃ side, n ∈ (p.side side).occurrences) ∧ Name.isLegal n = false}) := by
  refine Rule.decides_noNames fun n => ?_
  rw [List.mem_filter, List.mem_append, Bool.not_eq_true', Terms.names_eq_occurrences,
    Terms.names_eq_occurrences]
  refine and_congr_left fun _ => ⟨?_, ?_⟩
  · rintro (input | output)
    · exact ⟨.input, input⟩
    · exact ⟨.output, output⟩
  · rintro ⟨side, h⟩
    cases side with
    | input => exact .inl h
    | output => exact .inr h

/-- The rules decide the requirements, one by one. -/
lemma rules_decide :
    List.Forall₂ Rule.Decides (p.rules kind given) (p.requirements kind given) :=
  List.rel_append (List.rel_append (List.rel_append (List.rel_append
    (.cons nameRule_decides (formRules_decide .input)) (formRules_decide .output))
    ellipsisRules_decide) occurrenceRules_decide)
    (.cons (repetitionRule_decides .input) (.cons (repetitionRule_decides .output) .nil))

/-- A pattern passes the check exactly when it is well formed. Otherwise the error carries the text
of the pattern and belongs to the first requirement that is violated; it lists exactly the names at
fault, in increasing order and each once. -/
theorem check_exact (kind : Kind) (p : Pattern) (given : List String) :
    (p.check kind given = .ok () ↔ p.WellFormed kind given)
    ∧ (¬p.WellFormed kind given → ∃ earlier r later axes,
      p.requirements kind given = earlier ++ r :: later
      ∧ (∀ q ∈ earlier, ¬q.violated) ∧ r.violated
      ∧ p.check kind given = .error (.axis p.text r.cause axes)
      ∧ axes.Pairwise (· < ·) ∧ ∀ n, n ∈ axes ↔ n ∈ r.offending) := by
  have decided : p.check kind given = .ok () ↔ p.WellFormed kind given :=
    check_eq_ok.trans valid_iff
  exact ⟨decided, fun failed => Rule.check_first rules_decide (mt decided.mp failed)⟩

/-- Names on one side only are reported before names that are repeated. -/
theorem check_exact_one_sided :
    ∃ r ∈ (Pattern.ofSides [.name "a" .nowhere, .name "a" .nowhere, .name "b" .nowhere]
        [.name "b" .nowhere, .name "c" .nowhere]).requirements .rearranging [],
      r.violated ∧ r.cause = .oneSided ∧ ∀ n, n ∈ ["a", "c"] ↔ n ∈ r.offending := by
  obtain ⟨decided, first⟩ := check_exact .rearranging (.ofSides [.name "a" .nowhere,
    .name "a" .nowhere, .name "b" .nowhere] [.name "b" .nowhere, .name "c" .nowhere]) []
  have rejected : (Pattern.ofSides [.name "a" .nowhere, .name "a" .nowhere, .name "b" .nowhere]
      [.name "b" .nowhere, .name "c" .nowhere]).check .rearranging []
      = .error (.axis "a a b -> b c" .oneSided ["a", "c"]) := by decide +kernel
  obtain ⟨earlier, r, later, axes, whole, -, violated, checked, -, offending⟩ :=
    first fun wellFormed => by cases rejected.symm.trans (decided.mpr wellFormed)
  obtain ⟨-, cause, rfl⟩ := PatternError.axis.inj (Except.error.inj (rejected.symm.trans checked))
  exact ⟨r, whole ▸ List.mem_append_right _ List.mem_cons_self, violated, cause.symm, offending⟩

end Pattern

end AxisNotation
