import AxisNotation.Proofs.Relabelling
import AxisNotation.Proofs.Resemblance

/-!
# Renamed patterns

A pattern is renamed when each name on its sides is replaced by another one (`Pattern.Renames`);
where its terms stand in a text does not matter. The renamed pattern resembles the pattern, and has
the same groups besides. All that the check for a kind of operation asks about a side is the same
for the renamed side, or is about names that the renaming tells apart, so both patterns pass the
check or neither does (`Pattern.Renames.alike_check`).
-/

namespace AxisNotation

mutual

/-- A term has each name `n` of another term replaced by `f n`. -/
inductive Term.Renames (f : String → String) : Term → Term → Prop where
  | name {n : String} {s s' : Span} : Term.Renames f (.name n s) (.name (f n) s')
  | group {ms ms' : Terms} {s s' : Span} :
      Terms.Renames f ms ms' → Term.Renames f (.group ms s) (.group ms' s')
  | ellipsis {s s' : Span} : Term.Renames f (.ellipsis s) (.ellipsis s')
  | unit {s s' : Span} : Term.Renames f (.unit s) (.unit s')

/-- Terms have each name `n` of some other terms replaced by `f n`. -/
inductive Terms.Renames (f : String → String) : Terms → Terms → Prop where
  | nil : Terms.Renames f [] []
  | cons {t t' : Term} {ts ts' : Terms} :
      Term.Renames f t t' → Terms.Renames f ts ts' → Terms.Renames f (t :: ts) (t' :: ts')

end

/-- A pattern has each name `n` of another pattern replaced by `f n`, whatever it was read from. -/
structure Pattern.Renames (f : String → String) (p p' : Pattern) : Prop where
  input : p.input.Renames f p'.input
  output : p.output.Renames f p'.output

/-- A renaming tells some names apart, and all of them are legal before and after. -/
structure Renaming (f : String → String) (names : List String) : Prop where
  injective : Set.InjOn f {n | n ∈ names}
  legal : ∀ n ∈ names, Name.isLegal n = true
  renamed_legal : ∀ n ∈ names, Name.isLegal (f n) = true

/-- The explicit sizes for renamed axes. -/
def SizeList.rename (f : String → String) (explicit : SizeList) : SizeList :=
  explicit.map fun entry => (f entry.1, entry.2)

lemma SizeList.rename_id (explicit : SizeList) : explicit.rename id = explicit :=
  List.map_id explicit

variable {f : String → String} {width : Nat}

/-! ## The sides of a renamed pattern -/

mutual

lemma Term.Renames.axes {t t' : Term} (h : t.Renames f t') :
    t'.axes width = (t.axes width).map (Axis.rename f) := by
  cases t with
  | group ms s =>
    cases h with
    | group members => exact Terms.Renames.axes members
  | ellipsis s =>
    cases h
    rw [Term.axes, Term.axes, List.map_map]
    rfl
  | _ =>
    cases h
    rfl

lemma Terms.Renames.axes {ts ts' : Terms} (h : ts.Renames f ts') :
    Terms.axes width ts' = (Terms.axes width ts).map (Axis.rename f) := by
  cases ts with
  | nil =>
    cases h
    rfl
  | cons t ts =>
    cases h with
    | cons first rest => rw [Terms.axes, Terms.axes, List.map_append, first.axes, rest.axes]

end

mutual

lemma Term.Renames.groups {t t' : Term} (h : t.Renames f t') :
    List.Forall₂ (fun g g' => g.1.Renames f g'.1) t.groups t'.groups := by
  cases t with
  | group ms s =>
    cases h with
    | group members =>
      exact List.rel_append (Terms.Renames.groups members) (.cons members .nil)
  | _ =>
    cases h
    exact .nil

lemma Terms.Renames.groups {ts ts' : Terms} (h : ts.Renames f ts') :
    List.Forall₂ (fun g g' => g.1.Renames f g'.1) (Terms.groups ts) (Terms.groups ts') := by
  cases ts with
  | nil =>
    cases h
    exact .nil
  | cons t ts =>
    cases h with
    | cons first rest => exact List.rel_append first.groups rest.groups

end

lemma Term.Renames.resembles {t t' : Term} (h : t.Renames f t') : t.Resembles f t' := by
  cases h with
  | name => exact .name
  | group members => exact .group fun _ => members.axes
  | ellipsis => exact .ellipsis
  | unit => exact .unit

namespace Terms.Renames

variable {ts ts' : Terms}

/-- Renamed terms resemble the terms. -/
lemma resembles (h : ts.Renames f ts') : ts.Resembles f ts' := by
  induction ts generalizing ts' with
  | nil =>
    cases h
    exact .nil
  | cons t ts ih =>
    cases h with
    | cons first rest => exact .cons first.resembles (ih rest)

lemma names (h : ts.Renames f ts') : Terms.names ts' = (Terms.names ts).map f :=
  h.resembles.names

lemma isEmpty (h : ts.Renames f ts') : ts'.isEmpty = ts.isEmpty := by
  cases h <;> rfl

lemma hasEmptyGroup (h : ts.Renames f ts') : ts'.hasEmptyGroup = ts.hasEmptyGroup :=
  any_of_forall₂ h.groups fun _ _ h => h.isEmpty

lemma hasOpenGroup (h : ts.Renames f ts') : ts'.hasOpenGroup = ts.hasOpenGroup :=
  any_of_forall₂ h.groups fun _ _ h => h.resembles.isOpen

end Terms.Renames

/-! ## Names that are told apart -/

section Distinct

variable {β γ : Type} {g : β → γ} {all xs ys : List β}

lemma mem_map_of_injOn (inj : Set.InjOn g {x | x ∈ all}) (sub : xs ⊆ all) {x : β} (hx : x ∈ all) :
    g x ∈ xs.map g ↔ x ∈ xs :=
  mem_map_iff fun _ hy => inj (sub hy) hx

lemma map_subset_of_injOn (inj : Set.InjOn g {x | x ∈ all}) (hx : xs ⊆ all) (hy : ys ⊆ all) :
    xs.map g ⊆ ys.map g ↔ xs ⊆ ys := by
  constructor
  · intro h x mem
    exact (mem_map_of_injOn inj hy (hx mem)).mp (h (List.mem_map_of_mem mem))
  · intro h
    exact List.map_subset g h

lemma nodup_map_of_injOn (inj : Set.InjOn g {x | x ∈ all}) (sub : xs ⊆ all) :
    (xs.map g).Nodup ↔ xs.Nodup :=
  ⟨List.Nodup.of_map g, List.Nodup.map_on fun _ hx _ hy => inj (sub hx) (sub hy)⟩

end Distinct

namespace Pattern

variable {kind : Kind} {p p' : Pattern} {all given : List String}

lemma mem_names {n : String} : n ∈ p.names ↔ n ∈ p.input.names ∨ n ∈ p.output.names := by
  rw [names, Name.mem_sorted, List.mem_append]

lemma side_names_subset (inside : p.names ⊆ all) (side : Side) : (p.side side).names ⊆ all := by
  intro n hn
  cases side with
  | input => exact inside (mem_names.mpr (.inl hn))
  | output => exact inside (mem_names.mpr (.inr hn))

lemma Renames.resembles (h : p.Renames f p') : p.Resembles f p' :=
  ⟨h.input.resembles, h.output.resembles⟩

lemma Renames.side (h : p.Renames f p') (side : Side) :
    (p.side side).Renames f (p'.side side) := by
  cases side with
  | input => exact h.input
  | output => exact h.output

lemma Renames.mem_names (h : p.Renames f p') {n' : String} :
    n' ∈ p'.names ↔ n' ∈ p.names.map f := by
  simp only [Pattern.mem_names, h.input.names, h.output.names, List.mem_map, or_and_right,
    exists_or]

section Check

variable (inj : Set.InjOn f {n | n ∈ all}) (inside : p.names ⊆ all) (listed : given ⊆ all)

include inj inside listed

lemma Resembles.namesMatch (h : p.Resembles f p') :
    p'.NamesMatch (given.map f) kind ↔ p.NamesMatch given kind := by
  have input : p.input.names ⊆ all := side_names_subset inside .input
  have output : p.output.names ⊆ all := side_names_subset inside .output
  cases kind with
  | rearranging =>
    rw [NamesMatch, NamesMatch, h.input.names, h.output.names, map_subset_of_injOn inj input output,
      map_subset_of_injOn inj output input]
  | reducing =>
    rw [NamesMatch, NamesMatch, h.input.names, h.output.names, map_subset_of_injOn inj output input]
  | repeating =>
    rw [NamesMatch, NamesMatch, h.input.names, h.output.names, map_subset_of_injOn inj input output,
      List.forall_mem_map]
    refine and_congr_right fun _ => forall₂_congr fun n hn => ?_
    rw [mem_map_of_injOn inj input (output hn), mem_map_of_injOn inj listed (output hn)]

/-- The check of the names given for a renamed pattern is passed by the renamed names. -/
lemma Renames.checkGiven (h : p.Renames f p') :
    p'.checkGiven (given.map f) = .ok () ↔ p.checkGiven given = .ok () := by
  rw [checkGiven_eq_ok, checkGiven_eq_ok, List.subset_def, List.forall_mem_map]
  refine forall₂_congr fun n hn => ?_
  rw [h.mem_names, mem_map_of_injOn inj inside (listed hn)]

end Check

/-- What a valid pattern has to satisfy, said of a pattern that it is compared with. -/
lemma Valid.transfer {given' : List String} (valid : p.Valid kind given)
    (legal : ∀ n ∈ p'.input.names ++ p'.output.names, Name.isLegal n = true)
    (ellipses : ∀ side, (p.side side).ellipses = (p'.side side).ellipses)
    (emptyGroups : ∀ side, (p.side side).hasEmptyGroup = false →
      (p'.side side).hasEmptyGroup = false)
    (openGroups : p.input.hasOpenGroup = false → p'.input.hasOpenGroup = false)
    (namesMatch : p.NamesMatch given kind → p'.NamesMatch given' kind)
    (distinct : ∀ side, (p.side side).names.Nodup → (p'.side side).names.Nodup) :
    p'.Valid kind given' where
  legal
  oneEllipsis side := ellipses side ▸ valid.oneEllipsis side
  noEmptyGroup side := emptyGroups side (valid.noEmptyGroup side)
  noOpenGroup := openGroups valid.noOpenGroup
  ellipsisKnown := by
    have input : p.input.ellipses = p'.input.ellipses := ellipses .input
    have output : p.output.ellipses = p'.output.ellipses := ellipses .output
    exact input ▸ output ▸ valid.ellipsisKnown
  ellipsisKept := by
    have input : p.input.ellipses = p'.input.ellipses := ellipses .input
    have output : p.output.ellipses = p'.output.ellipses := ellipses .output
    exact input ▸ output ▸ valid.ellipsisKept
  namesMatch := namesMatch valid.namesMatch
  distinct side := distinct side (valid.distinct side)

/-- A renamed pattern is valid exactly when the pattern is. -/
lemma Renames.valid_iff (h : p.Renames f p') (faithful : Renaming f all) (inside : p.names ⊆ all)
    (listed : given ⊆ all) : p'.Valid kind (given.map f) ↔ p.Valid kind given := by
  have legal : ∀ n ∈ p.input.names ++ p.output.names, Name.isLegal n = true := fun n hn =>
    faithful.legal n (inside (Name.mem_sorted.mpr hn))
  have legal' : ∀ n ∈ p'.input.names ++ p'.output.names, Name.isLegal n = true := by
    rw [h.input.names, h.output.names, ← List.map_append, List.forall_mem_map]
    exact fun n hn => faithful.renamed_legal n (inside (Name.mem_sorted.mpr hn))
  have namesMatch : p'.NamesMatch (given.map f) kind ↔ p.NamesMatch given kind :=
    h.resembles.namesMatch faithful.injective inside listed
  have distinct (side : Side) : (p'.side side).names.Nodup ↔ (p.side side).names.Nodup := by
    rw [(h.side side).names]
    exact nodup_map_of_injOn faithful.injective (side_names_subset inside side)
  constructor
  · intro valid
    exact valid.transfer legal (fun side => (h.side side).resembles.ellipses)
      (fun side => (h.side side).hasEmptyGroup.symm.trans) h.input.hasOpenGroup.symm.trans
      namesMatch.mp fun side => (distinct side).mp
  · intro valid
    exact valid.transfer legal' (fun side => (h.side side).resembles.ellipses.symm)
      (fun side => (h.side side).hasEmptyGroup.trans) h.input.hasOpenGroup.trans namesMatch.mpr
      fun side => (distinct side).mpr

end Pattern

/-! ## The check of a renamed pattern -/

namespace Rule

variable {pattern pattern' : String} {rules rules' : List Rule}

lemma stage_of_check {e : PatternError} (h : check pattern rules = .error e) : e.stage = .axis := by
  unfold check at h
  split at h
  · cases h
    rfl
  · cases h

lemma alike_check (same : check pattern rules = .ok () ↔ check pattern' rules' = .ok ()) :
    (Outcome.ofPattern (check pattern rules)).Alike Eq
      (Outcome.ofPattern (check pattern' rules')) := by
  cases passed : check pattern rules with
  | ok u =>
    rw [same.mp passed]
    exact .ok rfl
  | error e =>
    cases passed' : check pattern' rules' with
    | ok u => cases passed.symm.trans (same.mpr passed')
    | error e' => exact .rejected ((stage_of_check passed).trans (stage_of_check passed').symm)

end Rule

namespace Pattern.Renames

variable {kind : Kind} {p p' : Pattern} {all given : List String} (h : p.Renames f p')
  (faithful : Renaming f all) (inside : p.names ⊆ all) (listed : given ⊆ all)

include h faithful inside listed

/-- A renamed pattern passes the check or is rejected just as the pattern is. -/
lemma alike_check : (Outcome.ofPattern (p.check kind given)).Alike Eq
    (Outcome.ofPattern (p'.check kind (given.map f))) := by
  apply Rule.alike_check
  exact check_eq_ok.trans ((h.valid_iff faithful inside listed).symm.trans check_eq_ok.symm)

lemma alike_checkGiven : (Outcome.ofPattern (p.checkGiven given)).Alike Eq
    (Outcome.ofPattern (p'.checkGiven (given.map f))) :=
  Rule.alike_check (h.checkGiven faithful.injective inside listed).symm

end Pattern.Renames

end AxisNotation
