import AxisNotation.Proofs.Operation
import AxisNotation.Proofs.Resolution.Failure

/-!
# What a valid pattern can be refused for

The checks that precede the solver leave it nothing to refuse but sizes (`ShapeCause.OfSizes`): the
names that it looks up are bound, none of them is bound before, and rearranging keeps the elements.
What is resolved can be planned (`Plan.refused_or_planned`).
-/

namespace AxisNotation

/-- The faults that lie in a shape and explicit sizes alone. The others are that a name has no size
or two sizes, that an ellipsis does not cover what it has to, and that elements are lost. -/
inductive ShapeCause.OfSizes : ShapeCause → Prop where
  | zeroSize {n} : OfSizes (.zeroSize n)
  | conflictingSizes {n k k'} : OfSizes (.conflictingSizes n k k')
  | sizeMismatch {n k d} : OfSizes (.sizeMismatch n k d)
  | rank {orMore least rank} : OfSizes (.rank orMore least rank)
  | unitDimension {i d} : OfSizes (.unitDimension i d)
  | productOverflow : OfSizes .productOverflow
  | groupSize {g k d} : OfSizes (.groupSize g k d)
  | indivisible {d g k} : OfSizes (.indivisible d g k)
  | undetermined {k g} : OfSizes (.undetermined k g)

/-- A failure that refuses a pattern for its sizes. -/
inductive Failure.OfSizes (pattern : String) : Failure → Prop where
  | rejected {cause axes expected actual} : cause.OfSizes →
    OfSizes pattern (.rejected (.shape pattern cause axes expected actual))

namespace Outcome

variable {α β : Type} {pattern : String}

/-- The computation refuses the pattern for its sizes if it has no result. -/
def Refuses (pattern : String) (x : Outcome α) : Prop :=
  ∀ failure, x = .error failure → failure.OfSizes pattern

lemma Refuses.bind {x : Outcome α} {f : α → Outcome β} (hx : x.Refuses pattern)
    (hf : ∀ a, x = .ok a → (f a).Refuses pattern) : (x >>= f).Refuses pattern := by
  cases x with
  | error e =>
    intro failure h
    cases h
    exact hx e rfl
  | ok a => exact hf a rfl

lemma refuses_ok (a : α) : Refuses pattern (.ok a) :=
  nofun

lemma refuses_require {holds : Prop} [Decidable holds] {error : PatternError}
    (ofSizes : Failure.OfSizes pattern (.rejected error)) :
    (require holds error).Refuses pattern := by
  unfold require
  split
  · exact refuses_ok ()
  · rintro _ ⟨⟩
    exact ofSizes

lemma refuses_agree {known : Option Nat} {size : Nat} {error : Nat → PatternError}
    (ofSizes : ∀ k, known = some k → Failure.OfSizes pattern (.rejected (error k))) :
    (agree known size error).Refuses pattern := by
  cases known with
  | none => exact refuses_ok ()
  | some k => exact refuses_require (ofSizes k rfl)

/-- Computations that refuse patterns for their sizes and have the same results are alike. -/
lemma Refuses.alike {pattern' : String} {x y : Outcome α} (hx : x.Refuses pattern)
    (hy : y.Refuses pattern') (same : ∀ a, x = .ok a ↔ y = .ok a) : x.Alike Eq y := by
  cases x with
  | ok a =>
    rw [(same a).mp rfl]
    exact .refl _
  | error e =>
    cases y with
    | ok a => cases (same a).mpr rfl
    | error e' =>
      obtain ⟨-⟩ := hx e rfl
      obtain ⟨-⟩ := hy e' rfl
      exact .rejected rfl

end Outcome

open Outcome

variable {given known : Sizes} {b : Binding} {pattern : String} {shape : Shape}

lemma Resolution.refuses_product (sizes : List Nat) :
    (product pattern sizes).Refuses pattern := by
  unfold product
  cases Shape.product? sizes with
  | none =>
    rintro _ ⟨⟩
    exact .rejected .productOverflow
  | some k => exact refuses_ok k

mutual

/-- Once all names are bound, only a product can have no size. -/
lemma Term.refuses_size (t : Term) (bound : ∀ n ∈ t.names, n ∈ b.sizes) :
    (t.size pattern b).Refuses pattern := by
  cases t with
  | name n s =>
    obtain ⟨k, hk⟩ := Sizes.mem_iff.mp (bound n List.mem_cons_self)
    rw [Term.size, hk]
    exact refuses_ok k
  | group ms s =>
    exact (Terms.refuses_sizes ms bound).bind fun ks _ => Resolution.refuses_product ks
  | ellipsis s => exact Resolution.refuses_product b.covered
  | unit s => exact refuses_ok 1

lemma Terms.refuses_sizes (ts : Terms) (bound : ∀ n ∈ Terms.names ts, n ∈ b.sizes) :
    (Terms.sizes pattern b ts).Refuses pattern := by
  cases ts with
  | nil => exact refuses_ok []
  | cons t ts =>
    obtain ⟨bound_t, bound_ts⟩ := List.forall_mem_append.mp bound
    refine (Term.refuses_size t bound_t).bind fun _ _ => ?_
    exact (Terms.refuses_sizes ts bound_ts).bind fun _ _ => refuses_ok _

end

namespace Resolution

variable {explicit : SizeList} {position width : Nat} {t : Term} {ts : Terms}

lemma refuses_collect : (collect pattern known explicit).Refuses pattern := by
  induction explicit generalizing known with
  | nil => exact refuses_ok known
  | cons entry rest ih =>
    refine (refuses_require (.rejected .zeroSize)).bind fun _ _ => ?_
    exact (refuses_agree fun _ _ => .rejected .conflictingSizes).bind fun _ _ => ih

/-- A name that is not bound yet cannot be bound to two sizes. -/
lemma refuses_bindTerm (d : Nat) (fresh : ∀ n ∈ t.names, b.sizes[n]? = none) :
    (bindTerm pattern given shape position d b t).Refuses pattern := by
  cases t with
  | name n s =>
    refine (refuses_agree fun _ _ => .rejected .sizeMismatch).bind fun _ _ => ?_
    rw [fresh n List.mem_cons_self]
    exact refuses_ok _
  | group ms s =>
    refine (refuses_product _).bind fun known _ => ?_
    split
    · exact (refuses_require (.rejected .groupSize)).bind fun _ _ => refuses_ok _
    · exact (refuses_require (.rejected .indivisible)).bind fun _ _ => refuses_ok _
    · rintro _ ⟨⟩
      exact .rejected .undetermined
  | ellipsis s => exact refuses_ok b
  | unit s => exact (refuses_require (.rejected .unitDimension)).bind fun _ _ => refuses_ok b

/-- The names of a term are distinct from those before it, so they are fresh when it is matched. -/
lemma refuses_bindTerms {ds : Shape} (nodup : (Terms.names ts).Nodup)
    (fresh : ∀ n ∈ Terms.names ts, b.sizes[n]? = none) (one : ts.countP Term.isEllipsis ≤ 1)
    (takes : Terms.Takes width ts ds.length) :
    (bindTerms pattern given shape width ts position ds b).Refuses pattern := by
  induction ts generalizing b position ds with
  | nil => exact refuses_ok b
  | cons t ts ih =>
    obtain ⟨-, nodup_ts, disjoint⟩ := List.nodup_append.mp nodup
    obtain ⟨fresh_t, fresh_ts⟩ := List.forall_mem_append.mp fresh
    cases single : t.isEllipsis with
    | true =>
      obtain ⟨s, rfl⟩ := Term.exists_of_isEllipsis single
      obtain ⟨room, takes⟩ := takes.of_ellipsis (Terms.isOpen_of_one one)
      rw [bindTerms, if_pos room]
      refine ih (b := ⟨b.sizes, ds.take width⟩) nodup_ts fresh_ts (Terms.one_of_cons one) ?_
      rwa [List.length_drop]
    | false =>
      obtain ⟨rest, len, takes⟩ := takes.uncons single
      obtain ⟨d, ds, rfl⟩ := List.exists_cons_of_length_eq_add_one len
      obtain rfl : ds.length = rest := Nat.succ.inj len
      rw [bindTerms_cons single]
      refine (refuses_bindTerm d fresh_t).bind fun c first => ?_
      obtain ⟨ext, -⟩ := bindTerm_sound single fresh_t first
      refine ih nodup_ts (fun n hn => ?_) (Terms.one_of_cons one) takes
      rw [ext.others n fun hn' => disjoint n hn' n hn rfl, fresh_ts n hn]

lemma refuses_bindInput {input : Terms} (nodup : input.names.Nodup)
    (one : input.countP Term.isEllipsis ≤ 1) :
    (bindInput pattern given input shape).Refuses pattern := by
  refine (refuses_require (.rejected .rank)).bind fun _ rank => ?_
  exact refuses_bindTerms nodup (fun n _ => sizes_empty n) one
    (takes_iff.mpr (Outcome.require_eq_ok.mp rank))

lemma refuses_shapeOf (bound : ∀ n ∈ Terms.names ts, n ∈ b.sizes) :
    (shapeOf pattern b ts).Refuses pattern := by
  induction ts with
  | nil => exact refuses_ok []
  | cons t ts ih =>
    obtain ⟨bound_t, bound_ts⟩ := List.forall_mem_append.mp bound
    cases single : t.isEllipsis with
    | true =>
      obtain ⟨s, rfl⟩ := Term.exists_of_isEllipsis single
      exact (ih bound_ts).bind fun _ _ => refuses_ok _
    | false =>
      rw [shapeOf_cons single]
      refine (Term.refuses_size t bound_t).bind fun _ _ => ?_
      exact (ih bound_ts).bind fun _ _ => refuses_ok _

/-- Shapes with equally many elements fail to be compared only when these cannot be counted. -/
lemma refuses_conserve {input output : Shape} (same : output.elements = input.elements) :
    (conserve pattern input output).Refuses pattern := by
  refine (refuses_product input).bind fun before hb => ?_
  refine (refuses_product output).bind fun after ha => ?_
  have equal : before = after := by
    rw [Shape.eq_elements_of_product? (product_eq_ok.mp hb),
      Shape.eq_elements_of_product? (product_eq_ok.mp ha), same]
  rw [require, if_pos equal]
  exact refuses_ok ()

variable {kind : Kind} {p : Pattern} (valid : p.Valid kind explicit.names)
  (listed : ∀ (n : String) (k : Nat), given[n]? = some k ↔ (n, k) ∈ explicit)

include valid listed

/-- A name that only the output has is given a size, so it is bound without fail. -/
lemma refuses_bindAll : (bindAll kind p shape given).Refuses p.text := by
  have nodup := valid.distinct .input
  have one := valid.one_ellipsis .input
  refine (refuses_bindInput nodup one).bind fun c hc => ?_
  split
  · obtain ⟨ext, -⟩ := bindInput_sound nodup one hc
    obtain ⟨b, hb⟩ : ∃ b, bindNew p.text given c p.output.names = .ok b := by
      refine bindNew_complete fun n output absent => ?_
      have new : n ∉ p.input.names := fun input => absent (ext.bound n input)
      obtain ⟨k, hk⟩ := SizeList.mem_names.mp (valid.repeating_of_new output new).2
      exact ⟨k, (listed n k).mpr hk⟩
    rw [hb]
    exact refuses_ok b
  · exact refuses_ok c

omit listed

/-- The solver refuses a valid pattern for its sizes or not at all. -/
theorem refuses_solve : (solve kind p shape explicit).Refuses p.text := by
  rw [solve_eq]
  refine refuses_collect.bind fun given collected => ?_
  have listed := collected_listed collected
  refine (refuses_bindAll valid listed).bind fun b hb => ?_
  obtain ⟨consistent, covered, -⟩ := bindAll_sound valid listed hb
  have bound (n : String) (hn : n ∈ p.output.names) : n ∈ b.sizes :=
    (consistent.names n).mpr (.inr hn)
  refine (refuses_shapeOf bound).bind fun output shaped => ?_
  split
  · next rearranging =>
    subst rearranging
    obtain ⟨-, rfl⟩ := (shapeOf_eq_ok bound).mp shaped
    have same := elements_output valid consistent
    rw [← covered] at same
    exact (refuses_conserve same).bind fun _ _ => refuses_ok _
  · exact refuses_ok _

end Resolution

/-! ## Planning -/

namespace Plan

/-- The plan that a pattern is expected to have for a kind of operation can be made. -/
def Plannable (kind : Kind) (p : Pattern) (shape : Shape) (r : Resolution) : Prop :=
  match kind with
  | .rearranging => ∃ plan, Rearrange.ofPattern p shape r = .ok plan
  | .reducing => ∀ reduction keep, ∃ plan, Reduce.ofPattern p shape r reduction keep = .ok plan
  | .repeating => ∃ plan, Repeat.ofPattern p shape r = .ok plan

lemma plannable_of_suits {kind : Kind} {p : Pattern} {shape : Shape} {r : Resolution}
    {given : List String} (suits : r.Suits kind p shape given) : Plannable kind p shape r := by
  have suits : r.Suits kind p (placeholder shape).shape given := suits
  cases kind with
  | rearranging =>
    obtain ⟨plan, -, planned, -⟩ := exists_rearrange suits
    exact ⟨plan, planned⟩
  | reducing =>
    intro reduction keep
    obtain ⟨plan, planned, -⟩ := exists_reduce suits reduction keep
    exact ⟨plan, planned⟩
  | repeating =>
    obtain ⟨plan, -, planned, -⟩ := exists_repeat suits
    exact ⟨plan, planned⟩

open Resolution in
/-- A pattern that passes the check for a kind of operation is refused for its sizes, with an error
about the shape, or else resolved and planned. It is never found then that a name has no size or two
sizes, or that elements would be lost. -/
theorem refused_or_planned (kind : Kind) (p : Pattern) (shape : Shape) (explicit : SizeList)
    (valid : p.check kind explicit.names = .ok ()) :
    (∀ failure, solve kind p shape explicit = .error failure →
      ∃ cause axes expected actual,
        failure = .rejected (.shape p.text cause axes expected actual) ∧ cause.OfSizes
          ∧ (∀ n, cause ≠ .unresolved n) ∧ (∀ n k d, cause ≠ .reboundAxis n k d)
          ∧ ∀ before after, cause ≠ .elementCount before after)
    ∧ ∀ r, solve kind p shape explicit = .ok r → Plannable kind p shape r := by
  have valid := Pattern.check_eq_ok.mp valid
  refine ⟨fun failure failed => ?_, fun r solved => ?_⟩
  · cases refuses_solve valid failure failed with
    | rejected ofSizes =>
      refine ⟨_, _, _, _, rfl, ofSizes, ?_, ?_, ?_⟩
      · rintro n rfl
        cases ofSizes
      · rintro n k d rfl
        cases ofSizes
      · rintro before after rfl
        cases ofSizes
  · exact plannable_of_suits (suits_of_solve valid solved)

open Resolution in
/-- A group of two names is planned on a dimension that the given one divides, and refused on
another. -/
theorem refused_or_planned_split :
    splitPattern.check .rearranging (SizeList.names [("h", 2)]) = .ok ()
      ∧ (∃ cause axes expected actual,
        solve .rearranging splitPattern [7] [("h", 2)]
          = .error (.rejected (.shape splitPattern.text cause axes expected actual))
        ∧ cause.OfSizes)
      ∧ ∃ r plan, solve .rearranging splitPattern [6] [("h", 2)] = .ok r
        ∧ Rearrange.ofPattern splitPattern [6] r = .ok plan := by
  have valid : splitPattern.check .rearranging (SizeList.names [("h", 2)]) = .ok () := by
    decide +kernel
  have odd : (solve .rearranging splitPattern [7] [("h", 2)]).toOption.isNone := by decide +kernel
  have even : (solve .rearranging splitPattern [6] [("h", 2)]).toOption.isSome := by decide +kernel
  refine ⟨valid, ?_, ?_⟩
  · obtain ⟨refused, -⟩ := refused_or_planned .rearranging splitPattern [7] [("h", 2)] valid
    cases failed : solve .rearranging splitPattern [7] [("h", 2)] with
    | error failure =>
      obtain ⟨cause, axes, expected, actual, rfl, ofSizes, -⟩ := refused failure failed
      exact ⟨cause, axes, expected, actual, rfl, ofSizes⟩
    | ok r =>
      rw [failed] at odd
      cases odd
  · obtain ⟨-, planned⟩ := refused_or_planned .rearranging splitPattern [6] [("h", 2)] valid
    cases solved : solve .rearranging splitPattern [6] [("h", 2)] with
    | error failure =>
      rw [solved] at even
      cases even
    | ok r =>
      obtain ⟨plan, made⟩ := planned r solved
      exact ⟨r, plan, rfl, made⟩

end Plan

end AxisNotation
