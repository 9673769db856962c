import AxisNotation.Axis
import AxisNotation.Pattern.Validity
import AxisNotation.Proofs.Outcome

/-!
# Valid patterns and their elementary axes

A pattern passes the check for a kind of operation exactly when it is `Pattern.Valid` for it
(`Pattern.check_eq_ok`). The elementary axes of the sides of a valid pattern are distinct, and the
kind of operation decides how those of the two sides are related.
-/

namespace AxisNotation

/-- Which names may be on one side only: none for rearranging, those of the input for reducing, and
those of the output whose size is given for repeating. -/
def Pattern.NamesMatch (p : Pattern) (given : List String) : Kind → Prop
  | .rearranging => p.input.names ⊆ p.output.names ∧ p.output.names ⊆ p.input.names
  | .reducing => p.output.names ⊆ p.input.names
  | .repeating => p.input.names ⊆ p.output.names
      ∧ ∀ n ∈ p.output.names, n ∉ p.input.names → n ∈ given

/-- The rules for a kind of operation, where sizes are given for some names. -/
structure Pattern.Valid (kind : Kind) (p : Pattern) (given : List String) : Prop where
  legal : ∀ n ∈ p.input.names ++ p.output.names, Name.isLegal n = true
  oneEllipsis : ∀ side, (p.side side).ellipses ≤ 1
  noEmptyGroup : ∀ side, (p.side side).hasEmptyGroup = false
  noOpenGroup : p.input.hasOpenGroup = false
  ellipsisKnown : 0 < p.output.ellipses → 0 < p.input.ellipses
  ellipsisKept : kind ≠ .reducing → 0 < p.input.ellipses → 0 < p.output.ellipses
  namesMatch : p.NamesMatch given kind
  distinct : ∀ side, (p.side side).names.Nodup

namespace Rule

lemma check_eq_ok {pattern : String} {rules : List Rule} :
    check pattern rules = .ok () ↔ ∀ rule ∈ rules, rule.broken = false := by
  unfold check
  split
  · next rule found =>
    refine ⟨nofun, fun h => ?_⟩
    have broken := List.find?_some found
    rw [h rule (List.mem_of_find?_eq_some found)] at broken
    cases broken
  · next found =>
    refine ⟨fun _ rule hr => ?_, fun _ => rfl⟩
    exact Bool.eq_false_iff.mpr (List.find?_eq_none.mp found rule hr)

lemma noNames_broken {cause : AxisCause} {offenders : List String} :
    (noNames cause offenders).broken = false ↔ offenders = [] := by
  simp [noNames]

end Rule

namespace Terms

lemma namesOutside_eq_nil {ts others : Terms} :
    ts.namesOutside others = [] ↔ Terms.names ts ⊆ Terms.names others := by
  simp [namesOutside, List.filter_eq_nil_iff, List.subset_def]

lemma repeatedNames_eq_nil {ts : Terms} : ts.repeatedNames = [] ↔ (Terms.names ts).Nodup := by
  rw [repeatedNames, List.filter_eq_nil_iff, List.nodup_iff_count_le_one]
  refine ⟨fun h n => ?_, fun h n _ => by simpa using h n⟩
  by_cases mem : n ∈ Terms.names ts
  · simpa using h n mem
  · rw [List.count_eq_zero_of_not_mem mem]
    exact Nat.zero_le 1

end Terms

namespace Pattern

variable {kind : Kind} {p : Pattern} {given : List String}

lemma occurrenceRules_broken :
    (∀ rule ∈ p.occurrenceRules given kind, rule.broken = false) ↔ p.NamesMatch given kind := by
  cases kind with
  | rearranging =>
    simp [occurrenceRules, NamesMatch, Rule.noNames_broken, Terms.namesOutside_eq_nil]
  | reducing =>
    simp [occurrenceRules, NamesMatch, Rule.noNames_broken, Terms.namesOutside_eq_nil]
  | repeating =>
    simp only [occurrenceRules, NamesMatch, List.forall_mem_cons, Rule.noNames_broken,
      Terms.namesOutside_eq_nil]
    simp only [Terms.namesOutside, List.filter_filter, List.filter_eq_nil_iff]
    grind

lemma formRules_broken {side : Side} :
    (∀ rule ∈ p.formRules side, rule.broken = false)
      ↔ (p.side side).ellipses ≤ 1 ∧ (p.side side).hasEmptyGroup = false
        ∧ (side = .input → (p.side side).hasOpenGroup = false) := by
  simp [formRules, Rule.form]

lemma ellipsisRules_broken :
    (∀ rule ∈ p.ellipsisRules kind, rule.broken = false)
      ↔ (0 < p.output.ellipses → 0 < p.input.ellipses)
        ∧ (kind ≠ .reducing → 0 < p.input.ellipses → 0 < p.output.ellipses) := by
  simp only [ellipsisRules, Rule.form, Terms.hasEllipsis, List.forall_mem_cons]
  grind

/-- The check decides validity. -/
theorem check_eq_ok : p.check kind given = .ok () ↔ p.Valid kind given := by
  rw [check, Rule.check_eq_ok]
  simp only [rules, nameRule, repetitionRule, List.forall_mem_append, List.forall_mem_cons,
    List.cons_append, Rule.noNames_broken, formRules_broken, ellipsisRules_broken,
    occurrenceRules_broken, Terms.repeatedNames_eq_nil]
  constructor
  · rintro ⟨legal, ⟨⟨⟨⟨input, output⟩, known, kept⟩, namesMatch⟩, distinct, distinct', _⟩⟩
    exact {
      legal := fun n hn => by simpa using List.filter_eq_nil_iff.mp legal n hn
      oneEllipsis := fun | .input => input.1 | .output => output.1
      noEmptyGroup := fun | .input => input.2.1 | .output => output.2.1
      noOpenGroup := input.2.2 trivial
      ellipsisKnown := known
      ellipsisKept := kept
      namesMatch
      distinct := fun | .input => distinct | .output => distinct' }
  · intro h
    refine ⟨?_, ⟨⟨⟨⟨⟨h.oneEllipsis .input, h.noEmptyGroup .input, fun _ => h.noOpenGroup⟩,
      ⟨h.oneEllipsis .output, h.noEmptyGroup .output, nofun⟩⟩, h.ellipsisKnown, h.ellipsisKept⟩,
      h.namesMatch⟩, h.distinct .input, h.distinct .output, nofun⟩⟩
    exact List.filter_eq_nil_iff.mpr fun n hn => by simpa using h.legal n hn

end Pattern

/-! ## Elementary axes -/

lemma Terms.axes_append (width : Nat) (ts us : Terms) :
    Terms.axes width (ts ++ us) = Terms.axes width ts ++ Terms.axes width us := by
  rw [axes_eq_flatMap, axes_eq_flatMap, axes_eq_flatMap, List.flatMap_append]

lemma Terms.groups_append (ts us : Terms) :
    Terms.groups (ts ++ us) = Terms.groups ts ++ Terms.groups us := by
  rw [groups_eq_flatMap, groups_eq_flatMap, groups_eq_flatMap, List.flatMap_append]

mutual

lemma Term.count_named (width : Nat) (n : String) (t : Term) :
    (t.axes width).count (.named n) = t.names.count n := by
  cases t with
  | name m s => simp [Term.axes, Term.names, List.count_cons]
  | group ms s => exact Terms.count_named width n ms
  | ellipsis s =>
    rw [Term.axes, Term.names, List.count_nil, List.count_eq_zero]
    simp
  | unit s => rfl

lemma Terms.count_named (width : Nat) (n : String) (ts : Terms) :
    (Terms.axes width ts).count (.named n) = (Terms.names ts).count n := by
  cases ts with
  | nil => rfl
  | cons t ts =>
    rw [Terms.axes, Terms.names, List.count_append, List.count_append, Term.count_named,
      Terms.count_named]

end

mutual

lemma Term.count_covered (width i : Nat) (t : Term) :
    (t.axes width).count (.covered i) = if i < width then t.ellipses else 0 := by
  cases t with
  | name m s => simp [Term.axes, Term.ellipses]
  | group ms s => exact Terms.count_covered width i ms
  | ellipsis s =>
    rw [Term.axes, Term.ellipses, List.count_map_of_injective _ _ fun _ _ h => Axis.covered.inj h]
    split
    · next h => exact List.count_eq_one_of_mem List.nodup_range (List.mem_range.mpr h)
    · next h => exact List.count_eq_zero_of_not_mem fun mem => h (List.mem_range.mp mem)
  | unit s => simp [Term.axes, Term.ellipses]

lemma Terms.count_covered (width i : Nat) (ts : Terms) :
    (Terms.axes width ts).count (.covered i) = if i < width then Terms.ellipses ts else 0 := by
  cases ts with
  | nil => simp [Terms.axes, Terms.ellipses]
  | cons t ts =>
    rw [Terms.axes, Terms.ellipses, List.count_append, Term.count_covered, Terms.count_covered]
    split <;> rfl

end

mutual

lemma Term.ellipses_eq_zero {t : Term} (h : ∀ g ∈ t.groups, Terms.isOpen g.1 = false)
    (ht : t.isEllipsis = false) : t.ellipses = 0 := by
  cases t with
  | name m s => rfl
  | group ms s =>
    obtain ⟨inner, outer⟩ := List.forall_mem_append.mp h
    exact Terms.ellipses_eq_zero inner (outer _ List.mem_cons_self)
  | ellipsis s => cases ht
  | unit s => rfl

lemma Terms.ellipses_eq_zero {ts : Terms} (h : ∀ g ∈ Terms.groups ts, Terms.isOpen g.1 = false)
    (hts : Terms.isOpen ts = false) : Terms.ellipses ts = 0 := by
  cases ts with
  | nil => rfl
  | cons t ts =>
    obtain ⟨first, rest⟩ := List.forall_mem_append.mp h
    rw [Terms.isOpen, List.any_cons, Bool.or_eq_false_iff] at hts
    rw [Terms.ellipses, Term.ellipses_eq_zero first hts.1, Terms.ellipses_eq_zero rest hts.2]

end

namespace Terms

variable {width : Nat} {ts : Terms}

lemma named_mem_axes {n : String} : .named n ∈ Terms.axes width ts ↔ n ∈ Terms.names ts := by
  rw [← List.count_pos_iff, ← List.count_pos_iff, count_named]

lemma covered_mem_axes {i : Nat} :
    .covered i ∈ Terms.axes width ts ↔ i < width ∧ 0 < Terms.ellipses ts := by
  rw [← List.count_pos_iff, count_covered]
  split <;> simp_all

lemma nodup_axes (names : (Terms.names ts).Nodup) (ellipses : Terms.ellipses ts ≤ 1) :
    (Terms.axes width ts).Nodup := by
  rw [List.nodup_iff_count_le_one]
  intro a
  cases a with
  | named n => exact count_named width n ts ▸ List.nodup_iff_count_le_one.mp names n
  | covered i =>
    rw [count_covered]
    split
    · exact ellipses
    · exact Nat.zero_le 1

end Terms

namespace Pattern.Valid

variable {kind : Kind} {p : Pattern} {given given' : List String}

/-- The given sizes matter only for new names of the output. -/
lemma change_given (h : p.Valid kind given)
    (new : ∀ n ∈ p.output.names, n ∉ p.input.names → n ∈ given → n ∈ given') :
    p.Valid kind given' := by
  refine { h with namesMatch := ?_ }
  have namesMatch := h.namesMatch
  cases kind with
  | rearranging => exact namesMatch
  | reducing => exact namesMatch
  | repeating =>
    exact ⟨namesMatch.1, fun n output input => new n output input (namesMatch.2 n output input)⟩

lemma nodup_axes (h : p.Valid kind given) (side : Side) (width : Nat) :
    ((p.side side).axes width).Nodup :=
  Terms.nodup_axes (h.distinct side) (h.oneEllipsis side)

/-- The groups of the input have no ellipses. -/
lemma ellipses_of_single (h : p.Valid kind given) {t : Term} (mem : t ∈ p.input)
    (single : t.isEllipsis = false) : t.ellipses = 0 := by
  refine Term.ellipses_eq_zero (fun g hg => ?_) single
  have none := List.any_eq_false.mp h.noOpenGroup g
  rw [Terms.groups_eq_flatMap] at none
  exact Bool.eq_false_iff.mpr (none (List.mem_flatMap_of_mem mem hg))

/-- An input without an ellipsis of its own has none in its groups either. -/
lemma ellipses_of_closed (h : p.Valid kind given) (closed : p.input.isOpen = false) :
    p.input.ellipses = 0 := by
  apply Terms.ellipses_eq_zero _ closed
  intro g hg
  exact Bool.eq_false_iff.mpr (List.any_eq_false.mp h.noOpenGroup g hg)

/-- A pattern that is valid for rearranging has the same axes on both sides. -/
lemma perm_axes (h : p.Valid .rearranging given) (width : Nat) :
    (p.output.axes width).Perm (p.input.axes width) := by
  obtain ⟨kept, known⟩ := h.namesMatch
  have nodup := h.nodup_axes .input width
  have nodup' := h.nodup_axes .output width
  refine (List.perm_ext_iff_of_nodup nodup' nodup).mpr ?_
  rintro (n | i)
  · rw [Terms.named_mem_axes, Terms.named_mem_axes]
    exact ⟨fun hn => known hn, fun hn => kept hn⟩
  · rw [Terms.covered_mem_axes, Terms.covered_mem_axes]
    exact and_congr_right fun _ => ⟨h.ellipsisKnown, h.ellipsisKept nofun⟩

/-- A pattern that is valid for reducing has on the output only axes of the input. -/
lemma output_subset_input (h : p.Valid .reducing given) (width : Nat) :
    p.output.axes width ⊆ p.input.axes width := by
  rintro (n | i)
  · rw [Terms.named_mem_axes, Terms.named_mem_axes]
    exact fun hn => h.namesMatch hn
  · rw [Terms.covered_mem_axes, Terms.covered_mem_axes]
    exact And.imp_right h.ellipsisKnown

/-- A pattern that is valid for repeating has on the output all axes of the input. -/
lemma input_subset_output (h : p.Valid .repeating given) (width : Nat) :
    p.input.axes width ⊆ p.output.axes width := by
  rintro (n | i)
  · rw [Terms.named_mem_axes, Terms.named_mem_axes]
    exact fun hn => h.namesMatch.1 hn
  · rw [Terms.covered_mem_axes, Terms.covered_mem_axes]
    exact And.imp_right (h.ellipsisKept nofun)

end Pattern.Valid

end AxisNotation
