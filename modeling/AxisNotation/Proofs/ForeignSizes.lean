import AxisNotation.Proofs.Operation
import AxisNotation.Proofs.Resolution.Failure

/-!
# Sizes for names that a pattern does not have

An engine that is not strict takes sizes for any names, but nothing looks up the size of a name that
the pattern does not have (`Resolution.solveWith_congr`). Such sizes are ignored as long as they are
coherent (`Engine.foreign_sizes_ignored`): when the sizes are collected, one that is zero or
contradicts another is refused, whether or not the pattern has its name
(`Engine.foreign_size_refused`).
-/

namespace AxisNotation

/-! ## What is looked up -/

/-- Two collections of sizes are the same on some names. -/
def Sizes.SameOn (m m' : Sizes) (names : List String) : Prop :=
  ∀ n ∈ names, m[n]? = m'[n]?

variable {given given' : Sizes} {names : List String} {pattern : String} {shape : Shape}

lemma Sizes.SameOn.mono {names' : List String} (h : given.SameOn given' names)
    (sub : names' ⊆ names) : given.SameOn given' names' :=
  fun n hn => h n (sub hn)

/-- Inserting the same size for the same name keeps collections the same. -/
lemma Sizes.SameOn.insert (h : given.SameOn given' names) (name : String) (size : Nat) :
    Sizes.SameOn (given.insert name size) (given'.insert name size) names := by
  intro n hn
  rw [getElem?_insert, getElem?_insert, h n hn]

/-- A name that is not among the names makes no difference. -/
lemma Sizes.SameOn.insert_left (h : given.SameOn given' names) {name : String}
    (foreign : name ∉ names) (size : Nat) :
    Sizes.SameOn (given.insert name size) given' names := by
  intro n hn
  rw [getElem?_insert, if_neg, h n hn]
  rintro rfl
  exact foreign hn

lemma Binding.size?_congr (b : Binding) (same : given.SameOn given' names) :
    ∀ n ∈ names, b.size? given n = b.size? given' n := by
  intro n hn
  rw [size?, size?, same n hn]

lemma Binding.adopt_congr (b : Binding) (same : given.SameOn given' names) :
    b.adopt given names = b.adopt given' names := by
  apply List.foldl_ext
  intro b n hn
  rw [b.size?_congr same n hn]

namespace Resolution

lemma bindGroup_congr {group : Term} (same : given.SameOn given' group.names) (d : Nat)
    (b : Binding) : bindGroup pattern given group d b = bindGroup pattern given' group d b := by
  have unknown : (group.names.filter fun n => (b.size? given n).isNone)
      = group.names.filter fun n => (b.size? given' n).isNone :=
    List.filter_congr fun n hn => by rw [b.size?_congr same n hn]
  have known : group.names.filterMap (b.size? given) = group.names.filterMap (b.size? given') :=
    List.filterMap_congr (b.size?_congr same)
  simp only [bindGroup, unknown, known, Binding.adopt_congr _ same]

lemma bindTerm_congr {t : Term} (same : given.SameOn given' t.names) (position d : Nat)
    (b : Binding) :
    bindTerm pattern given shape position d b t = bindTerm pattern given' shape position d b t := by
  cases t with
  | name n s =>
    show bindName pattern given n d b = bindName pattern given' n d b
    rw [bindName, bindName, same n List.mem_cons_self]
  | group ms s => exact bindGroup_congr same d b
  | ellipsis s => rfl
  | unit s => rfl

lemma bindTerms_congr {ts : Terms} (same : given.SameOn given' (Terms.names ts))
    (width position : Nat) (ds : Shape) (b : Binding) :
    bindTerms pattern given shape width ts position ds b
      = bindTerms pattern given' shape width ts position ds b := by
  induction ts generalizing position ds b with
  | nil => rfl
  | cons t ts ih =>
    have first : given.SameOn given' t.names := same.mono (List.subset_append_left _ _)
    have rest := @ih (same.mono (List.subset_append_right _ _))
    cases single : t.isEllipsis with
    | true =>
      obtain ⟨s, rfl⟩ := Term.exists_of_isEllipsis single
      rw [bindTerms, bindTerms, rest]
    | false =>
      cases ds with
      | nil =>
        cases t with
        | ellipsis s => cases single
        | _ => rfl
      | cons d ds =>
        rw [bindTerms_cons single, bindTerms_cons single, bindTerm_congr first]
        congr 1
        funext b
        exact rest (position + 1) ds b

lemma bindNew_congr (same : given.SameOn given' names) (b : Binding) :
    bindNew pattern given b names = bindNew pattern given' b names := by
  induction names generalizing b with
  | nil => rfl
  | cons name names ih =>
    have rest := @ih (same.mono (List.subset_cons_self name names))
    rw [bindNew, bindNew, same name List.mem_cons_self, rest]
    congr 2
    funext size
    exact rest (b.set name size)

lemma bindAll_congr {kind : Kind} {p : Pattern}
    (same : given.SameOn given' (p.input.names ++ p.output.names)) :
    bindAll kind p shape given = bindAll kind p shape given' := by
  have input := same.mono (List.subset_append_left p.input.names p.output.names)
  have output := same.mono (List.subset_append_right p.input.names p.output.names)
  rw [bindAll, bindAll, bindInput, bindInput, bindTerms_congr input]
  congr 1
  funext bound
  rw [bindNew_congr output]

end Resolution

/-! ## Foreign sizes -/

namespace SizeList

/-- The explicit sizes of some names. -/
def within (explicit : SizeList) (names : List String) : SizeList :=
  explicit.filter fun entry => entry.1 ∈ names

/-- The explicit sizes of all but some names. -/
def outside (explicit : SizeList) (names : List String) : SizeList :=
  explicit.filter fun entry => entry.1 ∉ names

variable {explicit : SizeList} {n : String}

lemma mem_outside {size : Nat} :
    (n, size) ∈ explicit.outside names ↔ (n, size) ∈ explicit ∧ n ∉ names := by
  simp [outside]

lemma mem_names_within : n ∈ (explicit.within names).names ↔ n ∈ explicit.names ∧ n ∈ names := by
  simp only [mem_names, within, List.mem_filter, decide_eq_true_iff, exists_and_right]

end SizeList

namespace Resolution

variable {known known' : Sizes} {explicit : SizeList} {kind : Kind} {p : Pattern}

/-- What does not look at foreign names goes on in the same way when coherent sizes of such names
are left out of the collection. The induction keeps that no foreign name has two sizes, counting
those that are known already. -/
lemma collect_within {β : Type} {f : Sizes → Outcome β}
    (blind : ∀ given given' : Sizes, given.SameOn given' names → f given = f given')
    (same : known.SameOn known' names)
    (positive : ∀ n size, n ∉ names → (n, size) ∈ explicit → size ≠ 0)
    (agree : ∀ (n : String) (k k' : Nat), n ∉ names → known[n]? = some k ∨ (n, k) ∈ explicit →
      known[n]? = some k' ∨ (n, k') ∈ explicit → k = k') :
    collect pattern known explicit >>= f
      = collect pattern known' (explicit.within names) >>= f := by
  induction explicit generalizing known known' with
  | nil => exact blind known known' same
  | cons entry rest ih =>
    obtain ⟨name, size⟩ := entry
    have positive' (n : String) (size : Nat) (foreign : n ∉ names) (mem : (n, size) ∈ rest) :=
      positive n size foreign (List.mem_cons_of_mem _ mem)
    have agree' (n : String) (k k' : Nat) (foreign : n ∉ names)
        (hk : (known.insert name size)[n]? = some k ∨ (n, k) ∈ rest)
        (hk' : (known.insert name size)[n]? = some k' ∨ (n, k') ∈ rest) : k = k' :=
      agree n k k' foreign (listed_of_insert hk) (listed_of_insert hk')
    by_cases member : name ∈ names
    · have within : SizeList.within ((name, size) :: rest) names
          = (name, size) :: SizeList.within rest names :=
        List.filter_cons_of_pos (decide_eq_true member)
      rw [within, collect, collect, same name member]
      simp only [bind_assoc]
      congr 1
      funext _
      congr 1
      funext _
      exact ih (same.insert name size) positive' agree'
    · have within : SizeList.within ((name, size) :: rest) names = SizeList.within rest names :=
        List.filter_cons_of_neg (by simpa using member)
      have accepted {error : PatternError} : Outcome.require (size ≠ 0) error = .ok () :=
        Outcome.require_eq_ok.mpr (positive name size member List.mem_cons_self)
      have agreed {error : Nat → PatternError} : Outcome.agree known[name]? size error = .ok () :=
        Outcome.agree_eq_ok.mpr fun k hk =>
          agree name k size member (.inl hk) (.inr List.mem_cons_self)
      rw [within, collect, accepted, agreed]
      exact ih (same.insert_left member size) positive' agree'

/-- Coherent sizes of names that the pattern does not have make no difference. -/
lemma solve_within (coherent : (explicit.outside p.names).Coherent) :
    solve kind p shape explicit = solve kind p shape (explicit.within p.names) := by
  rw [solve_eq, solve_eq]
  apply collect_within
  · intro given given' same
    have all : given.SameOn given' (p.input.names ++ p.output.names) :=
      same.mono fun n hn => Name.mem_sorted.mpr hn
    rw [bindAll_congr all]
  · exact fun _ _ => rfl
  · intro n size foreign mem
    exact coherent.positive n size (SizeList.mem_outside.mpr ⟨mem, foreign⟩)
  · intro n k k' foreign hk hk'
    have listed {k : Nat} (h : (∅ : Sizes)[n]? = some k ∨ (n, k) ∈ explicit) :
        (n, k) ∈ explicit.outside p.names :=
      SizeList.mem_outside.mpr ⟨h.resolve_left (by simp), foreign⟩
    exact coherent.agree n k k' (listed hk) (listed hk')

/-- Sizes that are not coherent leave nothing to be solved, whatever their names are. -/
lemma coherent_of_solve {r : Resolution} (h : solve kind p shape explicit = .ok r) :
    (explicit.outside names).Coherent := by
  rw [solve_eq, bind_eq_ok] at h
  obtain ⟨given, collected, -⟩ := h
  have coherent := (exists_collect p.text).mp ⟨given, collected⟩
  refine ⟨fun n size mem => ?_, fun n k k' mem mem' => ?_⟩
  · exact coherent.positive n size (SizeList.mem_outside.mp mem).1
  · exact coherent.agree n k k' (SizeList.mem_outside.mp mem).1 (SizeList.mem_outside.mp mem').1

end Resolution

/-- The check looks at the given names only to see which names of the output are among them. -/
lemma Pattern.check_congr {kind : Kind} {p : Pattern} {given given' : List String}
    (same : ∀ n ∈ p.output.names, n ∈ given ↔ n ∈ given') :
    p.check kind given = p.check kind given' := by
  have rules : p.occurrenceRules given kind = p.occurrenceRules given' kind := by
    cases kind with
    | rearranging => rfl
    | reducing => rfl
    | repeating =>
      have unsized : ((p.output.namesOutside p.input).filter fun n => n ∉ given)
          = (p.output.namesOutside p.input).filter fun n => n ∉ given' :=
        List.filter_congr fun n hn =>
          decide_eq_decide.mpr (not_congr (same n (List.mem_of_mem_filter hn)))
      rw [occurrenceRules, occurrenceRules, unsized]
  rw [check, check, Pattern.rules, Pattern.rules, rules]

namespace Engine

/-- An engine plans the same with two lists of explicit sizes, or fails in the same way. -/
structure PlansAlike (e : Engine) (text : String) (shape : Shape) (explicit explicit' : SizeList) :
    Prop where
  rearrange : (e.planRearrange text shape explicit).1 = (e.planRearrange text shape explicit').1
  reduce : ∀ reduction keep, (e.planReduce text shape reduction keep explicit).1
    = (e.planReduce text shape reduction keep explicit').1
  repeatAlong : (e.planRepeat text shape explicit).1 = (e.planRepeat text shape explicit').1

/-- An engine has no plan for any operation. -/
structure PlansNothing (e : Engine) (text : String) (shape : Shape) (explicit : SizeList) :
    Prop where
  rearrange : ∀ plan, (e.planRearrange text shape explicit).1 ≠ .ok plan
  reduce : ∀ reduction keep plan, (e.planReduce text shape reduction keep explicit).1 ≠ .ok plan
  repeatAlong : ∀ plan, (e.planRepeat text shape explicit).1 ≠ .ok plan

variable {e : Engine} {text : String} {shape : Shape} {explicit explicit' : SizeList} {p : Pattern}

lemma PlansAlike.of_prepare
    (h : ∀ kind, (e.prepare kind text shape explicit).1 = (e.prepare kind text shape explicit').1) :
    e.PlansAlike text shape explicit explicit' where
  rearrange := congrArg (· >>= _) (h .rearranging)
  reduce _ _ := congrArg (· >>= _) (h .reducing)
  repeatAlong := congrArg (· >>= _) (h .repeating)

lemma PlansNothing.of_prepare (h : ∀ kind q, (e.prepare kind text shape explicit).1 ≠ .ok q) :
    e.PlansNothing text shape explicit where
  rearrange _ planned := by
    obtain ⟨q, prepared, -⟩ := bind_eq_ok.mp planned
    exact h .rearranging q prepared
  reduce _ _ _ planned := by
    obtain ⟨q, prepared, -⟩ := bind_eq_ok.mp planned
    exact h .reducing q prepared
  repeatAlong _ planned := by
    obtain ⟨q, prepared, -⟩ := bind_eq_ok.mp planned
    exact h .repeating q prepared

lemma resolve_within {config : Config} (lenient : config.strict = false) (kind : Kind)
    (coherent : (explicit.outside p.names).Coherent) :
    resolve config kind shape explicit p
      = resolve config kind shape (explicit.within p.names) p := by
  have check : p.check kind explicit.names = p.check kind (explicit.within p.names).names := by
    refine Pattern.check_congr fun n hn => ?_
    have known : n ∈ p.names := Name.mem_sorted.mpr (List.mem_append_right _ hn)
    rw [SizeList.mem_names_within, and_iff_left known]
  rw [resolve, resolve, check, Resolution.solve_within coherent, lenient]
  rfl

/-- An engine that is not strict reads the pattern without looking at the explicit sizes. Of these
it ignores those of names that the pattern does not have if they are coherent, and it has no plan if
they are not. -/
theorem foreign_sizes_ignored (reachable : e.Reachable) (lenient : e.config.strict = false)
    (text : String) (shape : Shape) (explicit : SizeList) :
    (∀ err, Pattern.parse text = .error err →
      ∀ explicit', e.PlansAlike text shape explicit explicit')
    ∧ ∀ p, Pattern.parse text = .ok p →
      ((explicit.outside p.names).Coherent →
        e.PlansAlike text shape explicit (explicit.within p.names))
      ∧ (¬ (explicit.outside p.names).Coherent → e.PlansNothing text shape explicit) := by
  refine ⟨fun err failed explicit' => .of_prepare fun kind => ?_, fun p read =>
    ⟨fun coherent => .of_prepare fun kind => ?_, fun incoherent => .of_prepare fun kind q h => ?_⟩⟩
  · show Outcome.ofPattern (e.parse text).1 >>= _ = Outcome.ofPattern (e.parse text).1 >>= _
    rw [reachable.parse_eq, failed]
    rfl
  · rw [reachable.prepare_eq read, reachable.prepare_eq read]
    exact resolve_within lenient kind coherent
  · rw [reachable.prepare_eq read] at h
    obtain ⟨-, -, -, solved⟩ := resolve_eq_ok.mp h
    exact incoherent (Resolution.coherent_of_solve solved)

/-- The size of a name that the pattern does not have is ignored when nothing else is wrong with
it. -/
theorem foreign_sizes_ignored_swap :
    ∃ plan, ((Engine.new .fast).planRearrange "h w -> w h" [3, 4] [("h", 3), ("k", 2)]).1 = .ok plan
      ∧ ((Engine.new .fast).planRearrange "h w -> w h" [3, 4] [("h", 3)]).1 = .ok plan
      ∧ plan.outputShape = [4, 3] := by
  have shaped : ((Engine.new .fast).planRearrange "h w -> w h" [3, 4] [("h", 3)]).1.map
      Plan.Rearrange.outputShape = .ok [4, 3] := by decide +kernel
  have named : (Pattern.parse "h w -> w h").map Pattern.names = .ok ["h", "w"] := by decide +kernel
  obtain ⟨plan, planned, shape⟩ := map_eq_ok.mp shaped
  obtain ⟨p, read, names⟩ := map_eq_ok.mp named
  obtain ⟨-, foreign⟩ :=
    foreign_sizes_ignored (.new .fast) rfl "h w -> w h" [3, 4] [("h", 3), ("k", 2)]
  obtain ⟨ignored, -⟩ := foreign p read
  rw [names] at ignored
  have coherent : (SizeList.outside [("h", 3), ("k", 2)] ["h", "w"]).Coherent := by
    have outside : SizeList.outside [("h", 3), ("k", 2)] ["h", "w"] = [("k", 2)] := by
      decide +kernel
    rw [outside]
    refine ⟨fun n size mem => ?_, fun n k k' mem mem' => ?_⟩
    · cases List.mem_singleton.mp mem
      exact two_ne_zero
    · cases List.mem_singleton.mp mem
      cases List.mem_singleton.mp mem'
      rfl
  have within : SizeList.within [("h", 3), ("k", 2)] ["h", "w"] = [("h", 3)] := by decide +kernel
  exact ⟨plan, by rw [(ignored coherent).rearrange, within, planned], planned, shape⟩

/-- An explicit size of zero is refused also for a name that the pattern does not have. -/
theorem foreign_size_refused :
    ∃ p plan, Pattern.parse "h w -> w h" = .ok p ∧ SizeList.within [("k", 0)] p.names = []
      ∧ ((Engine.new .fast).planRearrange "h w -> w h" [3, 4] []).1 = .ok plan
      ∧ ((Engine.new .fast).planRearrange "h w -> w h" [3, 4] [("k", 0)]).1 = .error
        (.rejected ((PatternError.ofShape "h w -> w h" (.zeroSize "k")).withAxes ["k"])) := by
  have shaped : ((Engine.new .fast).planRearrange "h w -> w h" [3, 4] []).1.map
      Plan.Rearrange.outputShape = .ok [4, 3] := by decide +kernel
  have named : (Pattern.parse "h w -> w h").map Pattern.names = .ok ["h", "w"] := by decide +kernel
  obtain ⟨plan, planned, -⟩ := map_eq_ok.mp shaped
  obtain ⟨p, read, names⟩ := map_eq_ok.mp named
  exact ⟨p, plan, read, by rw [names]; rfl, planned, by decide +kernel⟩

end Engine

end AxisNotation
