import AxisNotation.Backend.Rehearsal
import AxisNotation.Proofs.Rearrange
import AxisNotation.Proofs.Reduce
import AxisNotation.Proofs.Repeat

/-!
# What plans ask of a backend

Every call asks something of the shape that it is made on (`Call.Fits`). The calls of a plan fit the
shapes that they meet, one after another from the input shape on, and lead to the planned shape
(`Engine.planned_calls_fit`). So a backend that keeps its side of the contract carries out every
planned operation up to the planned shape (`Backend.Keeps.carries_out`). What a tensor carries out
fits its shape, so that most of this is read off a run of the plan on tensors; only a reduction,
which may fail for want of an element, is followed call by call.
-/

namespace AxisNotation

namespace Call

/-- What a call asks of a shape: a reshape keeps the number of elements, a permutation lists every
axis once, a transposition swaps two axes and no others, a reduction takes the last axes, and an
expansion changes only dimensions of size one. -/
def Fits (shape : Shape) : Call → Prop
  | reshape target => target.prod = shape.prod
  | permute axes => axes.Perm (List.range shape.length)
  | transpose => shape.length = 2
  | reduce axes _ _ => axes.Nodup ∧ (∀ a ∈ axes, a < shape.length)
      ∧ ∃ k, List.range k ++ axes = List.range shape.length
  | expand target => List.Forall₂ (fun d e => d = e ∨ d = 1) shape target

/-- Calls that are made one after another each fit the shape that they meet, and lead from one shape
to another. -/
inductive Lead : Shape → List Call → Shape → Prop where
  | nil {s} : Lead s [] s
  | cons {s c cs u} : c.Fits s → Lead (c.outputShape s) cs u → Lead s (c :: cs) u

namespace Lead

variable {s t u : Shape} {cs ds : List Call}

lemma append (h : Lead s cs t) (h' : Lead t ds u) : Lead s (cs ++ ds) u := by
  induction h with
  | nil => exact h'
  | cons fits _ ih => exact .cons fits (ih h')

lemma single {c : Call} (fits : c.Fits s) (shape : c.outputShape s = u) : Lead s [c] u := by
  subst shape
  exact .cons fits .nil

end Lead

end Call

namespace Service

variable {m : Type → Type} [Monad m] {τ : Type}

/-- Performs some calls one after another. -/
def performAll (b : Service m τ) (tensor : τ) (calls : List Call) : m τ :=
  calls.foldlM (fun t c => b.perform c t) tensor

variable (b : Service m τ) (t : τ)

lemma performAll_cons (c : Call) (cs : List Call) :
    b.performAll t (c :: cs) = b.perform c t >>= fun u => b.performAll u cs :=
  List.foldlM_cons

variable [LawfulMonad m]

lemma performAll_single (c : Call) : b.performAll t [c] = b.perform c t :=
  (b.performAll_cons t c []).trans (bind_pure _)

lemma performAll_append (cs ds : List Call) :
    b.performAll t (cs ++ ds) = b.performAll t cs >>= fun u => b.performAll u ds :=
  List.foldlM_append

/-- The identity needs no call, and every other step is one. -/
lemma takeSteps_eq (steps : List Step) :
    b.takeSteps t steps = b.performAll t (steps.filterMap Step.call?) := by
  induction steps generalizing t with
  | nil => rfl
  | cons step steps ih =>
    have rest : (fun u => b.takeSteps u steps)
        = fun u => b.performAll u (steps.filterMap Step.call?) := funext ih
    rw [takeSteps, List.foldlM_cons]
    show (b.takeStep t step >>= fun u => b.takeSteps u steps) = _
    rw [rest]
    cases step with
    | identity => exact pure_bind _ _
    | transpose => exact (b.performAll_cons t .transpose _).symm
    | permute axes => exact (b.performAll_cons t (.permute axes) _).symm
    | reshape shape => exact (b.performAll_cons t (.reshape shape) _).symm

end Service

namespace Plan

variable {m : Type → Type} [Monad m] [LawfulMonad m] {τ : Type} (b : Service m τ) (t : τ)

/-- Running a plan is performing its calls. -/
lemma Rearrange.run_eq (p : Rearrange) : p.run b t = b.performAll t p.calls :=
  b.takeSteps_eq t p.steps

lemma Reduce.run_eq (p : Reduce) : p.run b t = b.performAll t p.calls := by
  simp only [Reduce.run, Reduce.calls, Service.performAll_append, ← Service.takeSteps_eq,
    bind_assoc]
  congr 1
  funext u
  split
  · rw [Service.performAll_single]
  · rfl

lemma Repeat.run_eq (p : Repeat) : p.run b t = b.performAll t p.calls := by
  simp only [Repeat.run, Repeat.calls, Service.performAll_append, ← Service.takeSteps_eq,
    bind_assoc]
  congr 1
  funext u
  cases p.expanded with
  | none => rfl
  | some shape => rw [Option.map_some, Option.toList_some, Service.performAll_single]

end Plan

/-! ## What a tensor carries out -/

lemma Shape.filterMap_of_pick? {s u : Shape} {axes : List Nat} (h : s.pick? axes = some u) :
    (axes.filterMap fun i => s[i]?) = u := by
  have pointwise := mapM_eq_some.mp h
  clear h
  induction pointwise with
  | nil => rfl
  | cons found _ ih => rw [List.filterMap_cons_some found, ih]

lemma Shape.forall₂_of_broadcasts {s target : Shape} (h : s.broadcasts target = true) :
    List.Forall₂ (fun d e => d = e ∨ d = 1) s target := by
  induction s generalizing target with
  | nil =>
    cases target with
    | nil => exact .nil
    | cons e es => cases h
  | cons d ds ih =>
    cases target with
    | nil => cases h
    | cons e es =>
      simp only [broadcasts, Bool.and_eq_true, Bool.or_eq_true, decide_eq_true_eq] at h
      exact .cons h.1 (ih h.2)

namespace Tensor

variable {α : Type} {t u : Tensor α}

lemma perm_of_permute {axes : List Nat} (h : t.permute axes = .ok u) :
    axes.Perm (List.range t.shape.length) := by
  unfold permute at h
  split at h
  · next isPerm => exact List.isPerm_iff.mp isPerm
  · cases h

lemma permute_lead {axes : List Nat} (h : t.permute axes = .ok u) :
    Call.Lead t.shape [.permute axes] u.shape := by
  obtain ⟨-, shape⟩ := of_permute h
  exact .single (perm_of_permute h) (Shape.filterMap_of_pick? shape)

lemma transpose_lead (h : t.transpose = .ok u) : Call.Lead t.shape [.transpose] u.shape := by
  unfold transpose at h
  split at h
  · next rank =>
    obtain ⟨-, shape⟩ := of_permute h
    apply Call.Lead.single
    · exact rank
    · show t.shape.reverse = u.shape
      obtain ⟨a, c, e⟩ := List.length_eq_two.mp rank
      rw [← Shape.filterMap_of_pick? shape, e]
      rfl
  · cases h

lemma reshape_lead {shape : Shape} (h : t.reshape shape = .ok u) :
    Call.Lead t.shape [.reshape shape] u.shape := by
  obtain ⟨rfl, data⟩ := reshape_eq_ok.mp h
  apply Call.Lead.single
  · show u.shape.prod = t.shape.prod
    rw [← Shape.elements_eq_prod, ← Shape.elements_eq_prod, ← u.size_data, ← t.size_data, data]
  · rfl

lemma expand_lead {shape : Shape} (h : t.expand shape = .ok u) :
    Call.Lead t.shape [.expand shape] u.shape := by
  unfold expand at h
  split at h
  · next fits => exact .single (Shape.forall₂_of_broadcasts fits) (shape_of_gather h).symm
  · cases h

variable [Scalar α]

/-- Steps that a tensor takes are calls that fit its shape, and lead to the shape of the result. -/
lemma takeSteps_lead {steps : List Step} (h : (Tensor.backend α).takeSteps t steps = .ok u) :
    Call.Lead t.shape (steps.filterMap Step.call?) u.shape := by
  induction steps generalizing t with
  | nil =>
    cases h
    exact .nil
  | cons step steps ih =>
    obtain ⟨v, first, rest⟩ := bind_eq_ok.mp h
    have rest := ih rest
    cases step with
    | identity =>
      cases first
      exact rest
    | transpose => exact (transpose_lead first).append rest
    | permute axes => exact (permute_lead first).append rest
    | reshape shape => exact (reshape_lead first).append rest

end Tensor

/-! ## The calls of a plan -/

/-- A draft of one reshape leads to its shape. -/
lemma Draft.start_reshape_lead {s target : Shape} (h : target.elements = s.elements) :
    Call.Lead s (((Draft.start s).reshape target).steps.filterMap Step.call?) target := by
  unfold Draft.reshape
  split
  · next same =>
    have same : s = target := same
    subst same
    exact .nil
  · apply Call.Lead.single
    · show target.prod = s.prod
      rw [← Shape.elements_eq_prod, ← Shape.elements_eq_prod, h]
    · rfl

namespace Plan

variable {p : Pattern} {r : Resolution} {given : List String}

lemma rearrange_lead {shape : Shape} {plan : Rearrange} (suits : r.Suits .rearranging p shape given)
    (h : Rearrange.ofPattern p shape r = .ok plan) :
    Call.Lead shape plan.calls plan.outputShape := by
  have suits : r.Suits .rearranging p (placeholder shape).shape given := suits
  simp only [Rearrange.ofPattern, bind_eq_ok, pure_eq_ok] at h
  obtain ⟨steps, planned, rfl⟩ := h
  obtain ⟨y, taken, shows⟩ := rearrangeSteps_make suits suits.shows planned
  show Call.Lead (placeholder shape).shape _ r.outputShape
  rw [suits.output, ← shows.1]
  exact Tensor.takeSteps_lead taken

lemma repeat_lead {shape : Shape} {plan : Repeat} (suits : r.Suits .repeating p shape given)
    (h : Repeat.ofPattern p shape r = .ok plan) :
    Call.Lead shape plan.calls plan.outputShape := by
  have suits : r.Suits .repeating p (placeholder shape).shape given := suits
  obtain ⟨rfl, y, ran, shows⟩ := repeat_makes suits suits.shows h
  show Call.Lead (placeholder shape).shape _ plan.resolution.outputShape
  rw [suits.output, ← shows.1]
  cases e : plan.expanded with
  | none =>
    simp only [Repeat.run, e, bind_eq_ok] at ran
    obtain ⟨slotted, before, filled, same, after⟩ := ran
    cases same
    rw [Repeat.calls, e, Option.map_none, Option.toList_none, List.append_nil]
    exact (Tensor.takeSteps_lead before).append (Tensor.takeSteps_lead after)
  | some target =>
    simp only [Repeat.run, e, bind_eq_ok] at ran
    obtain ⟨slotted, before, filled, expanded, after⟩ := ran
    rw [Repeat.calls, e]
    apply Call.Lead.append _ (Tensor.takeSteps_lead after)
    exact (Tensor.takeSteps_lead before).append (Tensor.expand_lead expanded)

/-- The last axes of a shape, if there are any, can be reduced. -/
lemma reduce_last_lead (ks rs : Shape) (reduction : Reduction) (keep : Bool) :
    Call.Lead (ks ++ rs)
      (if !(List.range' ks.length rs.length).isEmpty then
        [.reduce (List.range' ks.length rs.length) reduction keep] else [])
      (ks ++ if keep then rs.map fun _ => 1 else []) := by
  cases rs with
  | nil =>
    rw [List.map_nil, ite_self]
    exact .nil
  | cons d ds =>
    apply Call.Lead.single
    · refine ⟨List.nodup_range', fun a ha => ?_, ks.length, ?_⟩
      · rw [List.mem_range'_1] at ha
        rw [List.length_append]
        exact ha.2
      · rw [List.length_append, List.range_eq_range', List.range_eq_range', ← List.range'_append_1,
          Nat.zero_add]
    · cases keep with
      | true => exact Shape.flatten_last ks (d :: ds)
      | false => exact (Shape.dropAxes_last ks (d :: ds)).trans (List.append_nil ks).symm

lemma reduce_lead {shape : Shape} {reduction : Reduction} {keep : Bool} {plan : Reduce}
    (suits : r.Suits .reducing p shape given)
    (h : Reduce.ofPattern p shape r reduction keep = .ok plan) :
    Call.Lead shape plan.calls plan.outputShape := by
  have suits : r.Suits .reducing p (placeholder shape).shape given := suits
  obtain ⟨kept, kept_eq⟩ : ∃ kept, p.output.axes r.covered.length = kept := ⟨_, rfl⟩
  obtain ⟨reduced, reduced_eq⟩ :
      ∃ reduced, (p.input.axes r.covered.length).filter (· ∉ kept) = reduced := ⟨_, rfl⟩
  have perm := ordered_perm suits
  rw [kept_eq, reduced_eq] at perm
  obtain ⟨d, u, drafted, makes, shows⟩ := suits.exists_ordered suits.shows perm
  have planned : Reduce.ofPattern p (placeholder shape).shape r reduction keep = .ok _ :=
    reduce_eq suits kept_eq reduced_eq perm drafted (makes.shape.symm.trans shows.1)
  obtain rfl := Except.ok.inj (h.symm.trans planned)
  have before := Tensor.takeSteps_lead makes.takeSteps
  rw [shows.1, List.map_append] at before
  have middle := reduce_last_lead (kept.map r.size) (reduced.map r.size) reduction keep
  rw [List.length_map, List.length_map] at middle
  -- the kept axes are merged, and the ones of the reduced axes stay behind them
  have count : Shape.elements (r.outputShape
        ++ if keep then (reduced.map r.size).map fun _ => 1 else [])
      = Shape.elements (kept.map r.size
        ++ if keep then (reduced.map r.size).map fun _ => 1 else []) := by
    rw [Shape.elements_append, Shape.elements_append, suits.output, Terms.elements_extents,
      Axis.volume_eq_elements, kept_eq]
  exact (before.append middle).append (Draft.start_reshape_lead count)

end Plan

namespace Engine

section Planned

variable {e : Engine} (reachable : e.Reachable) {text : String} {shape : Shape}
  {explicit : SizeList}

include reachable

lemma lead_of_planRearrange {plan : Plan.Rearrange}
    (planned : (e.planRearrange text shape explicit).1 = .ok plan) :
    Call.Lead shape plan.calls plan.outputShape := by
  have prepared : (e.prepare .rearranging text shape explicit).1
      >>= (fun q => Plan.Rearrange.ofPattern q.1 shape q.2) = .ok plan := planned
  obtain ⟨p, r, -, suits, made⟩ := reachable.of_planned prepared
  exact Plan.rearrange_lead suits made

lemma lead_of_planReduce {reduction : Reduction} {keep : Bool} {plan : Plan.Reduce}
    (planned : (e.planReduce text shape reduction keep explicit).1 = .ok plan) :
    Call.Lead shape plan.calls plan.outputShape := by
  have prepared : (e.prepare .reducing text shape explicit).1
      >>= (fun q => Plan.Reduce.ofPattern q.1 shape q.2 reduction keep) = .ok plan := planned
  obtain ⟨p, r, -, suits, made⟩ := reachable.of_planned prepared
  exact Plan.reduce_lead suits made

lemma lead_of_planRepeat {plan : Plan.Repeat}
    (planned : (e.planRepeat text shape explicit).1 = .ok plan) :
    Call.Lead shape plan.calls plan.outputShape := by
  have prepared : (e.prepare .repeating text shape explicit).1
      >>= (fun q => Plan.Repeat.ofPattern q.1 shape q.2) = .ok plan := planned
  obtain ⟨p, r, -, suits, made⟩ := reachable.of_planned prepared
  exact Plan.repeat_lead suits made

end Planned

/-- The calls of every plan fit the shapes that they meet from the input shape on and lead to the
planned shape, and running the plan on a backend is performing these calls. -/
theorem planned_calls_fit {e : Engine} (reachable : e.Reachable) (text : String) (shape : Shape)
    (explicit : SizeList) :
    (∀ plan, (e.planRearrange text shape explicit).1 = .ok plan →
      Call.Lead shape plan.calls plan.outputShape
        ∧ ∀ {m : Type → Type} [Monad m] [LawfulMonad m] {τ : Type} (b : Service m τ) (t : τ),
          plan.run b t = b.performAll t plan.calls)
    ∧ (∀ reduction keep plan, (e.planReduce text shape reduction keep explicit).1 = .ok plan →
      Call.Lead shape plan.calls plan.outputShape
        ∧ ∀ {m : Type → Type} [Monad m] [LawfulMonad m] {τ : Type} (b : Service m τ) (t : τ),
          plan.run b t = b.performAll t plan.calls)
    ∧ ∀ plan, (e.planRepeat text shape explicit).1 = .ok plan →
      Call.Lead shape plan.calls plan.outputShape
        ∧ ∀ {m : Type → Type} [Monad m] [LawfulMonad m] {τ : Type} (b : Service m τ) (t : τ),
          plan.run b t = b.performAll t plan.calls :=
  ⟨fun plan planned => ⟨lead_of_planRearrange reachable planned, fun b t => plan.run_eq b t⟩,
    fun _ _ plan planned => ⟨lead_of_planReduce reachable planned, fun b t => plan.run_eq b t⟩,
    fun plan planned => ⟨lead_of_planRepeat reachable planned, fun b t => plan.run_eq b t⟩⟩

/-- A column of pairs is transposed, the pairs are reduced to one element each, and repeated. -/
theorem planned_calls_fit_pairs :
    (∃ plan, ((Engine.new .standard).planRearrange "(h w) -> w h" [6] [("h", 2)]).1 = .ok plan
      ∧ Call.Lead [6] plan.calls [3, 2])
    ∧ (∃ plan, ((Engine.new .standard).planReduce "b (h k) -> h b" [2, 6] .max true [("k", 2)]).1
        = .ok plan ∧ plan.reduces = true ∧ Call.Lead [2, 6] plan.calls [3, 2, 1])
    ∧ ∃ plan, ((Engine.new .standard).planRepeat "h w -> (w k) h" [2, 3] [("k", 2)]).1 = .ok plan
      ∧ plan.expanded = some [3, 2, 2] ∧ Call.Lead [2, 3] plan.calls [6, 2] := by
  have rearranged : ((Engine.new .standard).planRearrange "(h w) -> w h" [6] [("h", 2)]).1.map
      Plan.Rearrange.outputShape = .ok [3, 2] := by decide +kernel
  have reduced : ((Engine.new .standard).planReduce "b (h k) -> h b" [2, 6] .max true
      [("k", 2)]).1.map (fun plan => (plan.reduces, plan.outputShape)) = .ok (true, [3, 2, 1]) := by
    decide +kernel
  have repeated : ((Engine.new .standard).planRepeat "h w -> (w k) h" [2, 3] [("k", 2)]).1.map
      (fun plan => (plan.expanded, plan.outputShape)) = .ok (some [3, 2, 2], [6, 2]) := by
    decide +kernel
  refine ⟨?_, ?_, ?_⟩
  · obtain ⟨plan, planned, shape⟩ := map_eq_ok.mp rearranged
    have fits := (planned_calls_fit (.new .standard) _ _ _).1 plan planned
    exact ⟨plan, planned, shape ▸ fits.1⟩
  · obtain ⟨plan, planned, e⟩ := map_eq_ok.mp reduced
    obtain ⟨reduces, shape⟩ := Prod.mk.inj e
    have fits := (planned_calls_fit (.new .standard) _ _ _).2.1 .max true plan planned
    exact ⟨plan, planned, reduces, shape ▸ fits.1⟩
  · obtain ⟨plan, planned, e⟩ := map_eq_ok.mp repeated
    obtain ⟨expanded, shape⟩ := Prod.mk.inj e
    have fits := (planned_calls_fit (.new .standard) _ _ _).2.2 plan planned
    exact ⟨plan, planned, expanded, shape ▸ fits.1⟩

end Engine

/-! ## Backends that keep the contract -/

namespace Backend

variable {ε τ : Type} {b : Backend ε τ}

/-- A backend keeps the contract when it carries out every call that fits, with the shape that the
call has. -/
def Keeps (b : Backend ε τ) : Prop :=
  ∀ c t, c.Fits (b.shape t) → ∃ u, b.perform c t = .ok u ∧ b.shape u = c.outputShape (b.shape t)

/-- A backend that keeps the contract carries out calls that fit, up to the shape they lead to. -/
lemma Keeps.performAll (keeps : b.Keeps) {t : τ} {calls : List Call} {target : Shape}
    (lead : Call.Lead (b.shape t) calls target) :
    ∃ u, b.performAll t calls = .ok u ∧ b.shape u = target := by
  generalize e : b.shape t = s at lead
  induction lead generalizing t with
  | nil => exact ⟨t, rfl, e⟩
  | @cons s c cs target fits _ ih =>
    subst e
    obtain ⟨v, performed, shape⟩ := keeps c t fits
    obtain ⟨u, rest, last⟩ := ih shape
    refine ⟨u, ?_, last⟩
    rw [Service.performAll_cons, bind_eq_ok]
    exact ⟨v, performed, rest⟩

/-- On a backend that keeps the contract, an operation that is planned has a result of the planned
shape. -/
theorem Keeps.carries_out (keeps : b.Keeps) {e : Engine} (reachable : e.Reachable) (t : τ)
    (text : String) (explicit : SizeList) :
    (∀ plan, (e.planRearrange text (b.shape t) explicit).1 = .ok plan →
      ∃ u, plan.run b t = .ok u ∧ b.shape u = plan.outputShape)
    ∧ (∀ reduction keep plan,
      (e.planReduce text (b.shape t) reduction keep explicit).1 = .ok plan →
        ∃ u, plan.run b t = .ok u ∧ b.shape u = plan.outputShape)
    ∧ ∀ plan, (e.planRepeat text (b.shape t) explicit).1 = .ok plan →
      ∃ u, plan.run b t = .ok u ∧ b.shape u = plan.outputShape := by
  refine ⟨fun plan planned => ?_, fun _ _ plan planned => ?_, fun plan planned => ?_⟩
  · rw [plan.run_eq]
    exact keeps.performAll (Engine.lead_of_planRearrange reachable planned)
  · rw [plan.run_eq]
    exact keeps.performAll (Engine.lead_of_planReduce reachable planned)
  · rw [plan.run_eq]
    exact keeps.performAll (Engine.lead_of_planRepeat reachable planned)

end Backend

/-- A rehearsal that is not told to fail keeps the contract. -/
lemma Rehearsal.keeps : (Rehearsal.backend none).Keeps :=
  fun c r _ => ⟨⟨c.outputShape r.shape, r.calls ++ [c]⟩, rfl, rfl⟩

/-- A rehearsal of a planned operation ends with the planned shape. -/
theorem Rehearsal.ends_as_planned {e : Engine} (reachable : e.Reachable) (text : String)
    (shape : Shape) (explicit : SizeList) :
    (∀ plan, (e.planRearrange text shape explicit).1 = .ok plan →
      ∃ r, plan.run (Rehearsal.backend none) (.start shape) = .ok r
        ∧ r.shape = plan.outputShape)
    ∧ (∀ reduction keep plan, (e.planReduce text shape reduction keep explicit).1 = .ok plan →
      ∃ r, plan.run (Rehearsal.backend none) (.start shape) = .ok r
        ∧ r.shape = plan.outputShape)
    ∧ ∀ plan, (e.planRepeat text shape explicit).1 = .ok plan →
      ∃ r, plan.run (Rehearsal.backend none) (.start shape) = .ok r
        ∧ r.shape = plan.outputShape :=
  Rehearsal.keeps.carries_out reachable (.start shape) text explicit

end AxisNotation
