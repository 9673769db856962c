import AxisNotation.Proofs.Rearrange
import AxisNotation.Proofs.Reduce
import AxisNotation.Proofs.Repeat

/-!
# Operations by a pattern

The three operations of an engine differ in how they plan and run. Here they are one function of the
pattern (`Operation.apply`), which is what an engine computes once it has read the pattern's text
(`Engine.Reachable.perform_eq`). From a resolution that suits the pattern every plan can be made,
and running it gives a tensor that is determined by what it shows along the output side
(`Tensor.ShowsSide.ext`).
-/

namespace AxisNotation

/-- What is done with a tensor by a pattern. -/
inductive Operation where
  | rearrange
  | reduce (reduction : Reduction) (keep : Bool)
  | repeatAlong
  deriving DecidableEq, Repr

namespace Operation

variable {m n : Type → Type} [Monad m] [Reports m n] {τ : Type}

/-- The kind that the pattern has to be valid for. -/
def kind : Operation → Kind
  | rearrange => .rearranging
  | reduce _ _ => .reducing
  | repeatAlong => .repeating

/-- Plans the operation by a resolution of the pattern and runs the plan. -/
def run (op : Operation) (b : Service m τ) (tensor : τ) (p : Pattern) (r : Resolution) : n τ :=
  match op with
  | rearrange =>
    Engine.execute (Plan.Rearrange.ofPattern p (b.shape tensor) r) fun plan => plan.run b tensor
  | reduce reduction keep =>
    Engine.execute (Plan.Reduce.ofPattern p (b.shape tensor) r reduction keep)
      fun plan => plan.run b tensor
  | repeatAlong =>
    Engine.execute (Plan.Repeat.ofPattern p (b.shape tensor) r) fun plan => plan.run b tensor

/-- Checks the pattern, resolves it on the shape of the tensor, and carries out the operation. -/
def apply (op : Operation) (config : Config) (b : Service m τ) (tensor : τ) (p : Pattern)
    (explicit : SizeList) : n τ :=
  match Engine.resolve config op.kind (b.shape tensor) explicit p with
  | .error failure => Reports.refuse m failure
  | .ok (p, r) => op.run b tensor p r

end Operation

/-- Once the pattern is resolved on the shape of a tensor, the operation is planned and run. -/
lemma Operation.apply_eq_run {α : Type} [Scalar α] {op : Operation} {config : Config}
    {x : Tensor α} {p : Pattern} {r : Resolution} {explicit : SizeList}
    (h : Engine.resolve config op.kind x.shape explicit p = .ok (p, r)) :
    op.apply config (Tensor.backend α) x p explicit = op.run (Tensor.backend α) x p r := by
  have h : Engine.resolve config op.kind ((Tensor.backend α).shape x) explicit p = .ok (p, r) := h
  rw [apply, h]

/-- An operation of an engine. -/
def Engine.perform {m n : Type → Type} [Monad m] [Reports m n] {τ : Type} (e : Engine)
    (op : Operation) (b : Service m τ) (tensor : τ) (text : String) (explicit : SizeList) :
    n τ × Engine :=
  match op with
  | .rearrange => e.rearrange b tensor text explicit
  | .reduce reduction keep => e.reduce b tensor text reduction keep explicit
  | .repeatAlong => e.repeatAlong b tensor text explicit

lemma Engine.config_parse (e : Engine) (text : String) : (e.parse text).2.config = e.config := by
  unfold Engine.parse
  split
  · rfl
  · rfl

/-- Running a plan has a result when there is a plan and the run has one. -/
lemma Engine.execute_eq_ok {ε τ P : Type} {plan : Outcome P} {run : P → Except ε τ} {y : τ} :
    execute plan run = .ok y ↔ ∃ made, plan = .ok made ∧ run made = .ok y := by
  cases plan with
  | error failure => exact ⟨nofun, nofun⟩
  | ok made =>
    rw [execute]
    constructor
    · intro h
      refine ⟨made, rfl, ?_⟩
      cases ran : run made with
      | error e => rw [ran] at h; cases h
      | ok z => rw [ran] at h; cases h; rfl
    · rintro ⟨made', e, ran⟩
      cases e
      rw [ran]
      rfl

namespace Engine.Reachable

variable {e : Engine} {text : String} {p : Pattern}

/-- An engine in use prepares the pattern that it reads. -/
lemma prepare_eq (reachable : e.Reachable) (read : Pattern.parse text = .ok p) (kind : Kind)
    (shape : Shape) (explicit : SizeList) :
    (e.prepare kind text shape explicit).1 = resolve e.config kind shape explicit p := by
  show (Outcome.ofPattern (e.parse text).1 >>= resolve (e.parse text).2.config kind shape explicit)
    = resolve e.config kind shape explicit p
  rw [reachable.parse_eq, read, e.config_parse]
  rfl

end Engine.Reachable

/-! ## The tensor that a side shows -/

namespace Tensor

variable {α : Type} {t u : Tensor α} {width : Nat} {size : Axis → Nat} {ts : Terms}
  {f g : (Axis → Nat) → Option α}

/-- Tensors that show the same elements along the same labels are the same. -/
lemma Shows.ext {labels : List Axis} (nodup : labels.Nodup) (ht : t.Shows size labels f)
    (hu : u.Shows size labels g) (same : ∀ σ, InRange size σ labels → f σ = g σ) : t = u := by
  apply ext_get (ht.1.trans hu.1.symm)
  intro i hi
  rw [ht.1] at hi
  obtain ⟨σ, rfl⟩ := exists_assignment nodup ((Index.length_of_isIn hi).trans (List.length_map _))
  have inRange : InRange size σ labels := Index.isIn_map.mp hi
  rw [ht.2 σ inRange, hu.2 σ inRange, same σ inRange]

/-- Tensors that show the same elements along a side of distinct axes are the same. -/
theorem ShowsSide.ext (nodup : (ts.axes width).Nodup) (ht : t.ShowsSide width size ts f)
    (hu : u.ShowsSide width size ts g) (same : ∀ σ, InRange size σ (ts.axes width) → f σ = g σ) :
    t = u := by
  obtain ⟨t', split, showsT⟩ := ht.split
  obtain ⟨u', split', showsU⟩ := hu.split
  have parts : t' = u' := showsT.ext nodup showsU same
  subst parts
  -- splitting a side into its axes keeps the elements in order
  have data : t.data = u.data := by
    rw [← (reshape_eq_ok.mp split).2, (reshape_eq_ok.mp split').2]
  obtain ⟨s, xs, hs⟩ := t
  obtain ⟨s', ys, hs'⟩ := u
  obtain rfl : s = s' := ht.1.trans hu.1.symm
  obtain rfl : xs = ys := data
  rfl

end Tensor

/-! ## Plans can be made -/

lemma Pattern.checkGiven_eq_ok {p : Pattern} {given : List String} :
    p.checkGiven given = .ok () ↔ given ⊆ p.names := by
  rw [checkGiven, Rule.check_eq_ok, List.forall_mem_singleton, Rule.noNames_broken,
    List.filter_eq_nil_iff]
  simp [List.subset_def]

namespace Engine

variable {config : Config} {kind : Kind} {shape : Shape} {explicit : SizeList} {p q : Pattern}
  {r : Resolution}

/-- A pattern is resolved when it is valid, the explicit sizes are allowed, and there are sizes. -/
lemma resolve_eq_ok : resolve config kind shape explicit p = .ok (q, r)
    ↔ q = p ∧ p.Valid kind explicit.names
      ∧ (config.strict = true → p.checkGiven explicit.names = .ok ())
      ∧ Resolution.solve kind p shape explicit = .ok r := by
  rw [← Pattern.check_eq_ok]
  unfold resolve
  cases config.strict with
  | true =>
    simp only [if_true, bind_eq_ok, pure_eq_ok, Outcome.ofPattern_eq_ok, forall_const]
    constructor
    · rintro ⟨_, valid, _, allowed, _, solved, e⟩
      cases e
      exact ⟨rfl, valid, allowed, solved⟩
    · rintro ⟨rfl, valid, allowed, solved⟩
      exact ⟨(), valid, (), allowed, r, solved, rfl⟩
  | false =>
    simp only [Bool.false_eq_true, if_false, bind_eq_ok, pure_eq_ok, Outcome.ofPattern_eq_ok,
      false_imp_iff, true_and]
    constructor
    · rintro ⟨_, valid, _, solved, e⟩
      cases e
      exact ⟨rfl, valid, solved⟩
    · rintro ⟨rfl, valid, solved⟩
      exact ⟨(), valid, r, solved, rfl⟩

end Engine

namespace Plan

variable {p : Pattern} {r : Resolution} {shape : Shape} {given : List String} {d : Draft}

/-- The general steps, once the sizes and the positions have been looked up. -/
lemma generalSteps_eq (suits : r.Suits .rearranging p shape given) :
    generalSteps p shape r
      = ((Draft.start shape).reshape ((r.axes p.input).map r.size)).permute
          ((r.axes p.output).map ((r.axes p.input).idxOf ·))
        >>= fun d => pure (d.reshape r.outputShape).steps := by
  have sizes : r.axisSizes p.text (r.axes p.input) = .ok ((r.axes p.input).map r.size) :=
    suits.axisSizes_eq .input
  have sub : r.axes p.output ⊆ r.axes p.input := (suits.valid.perm_axes _).subset
  show (r.axisSizes p.text (r.axes p.input) >>= fun sizes =>
    Axis.positions p.text (r.axes p.input) (r.axes p.output) >>= fun positions => _) = _
  rw [sizes, Axis.positions_eq sub]
  rfl

/-- The plan to repeat, once the axes that are carried over are in order. -/
lemma repeat_eq (suits : r.Suits .repeating p shape given) {carried : List Axis}
    (carried_eq : (r.axes p.output).filter (· ∈ r.axes p.input) = carried)
    (drafted : ((Draft.start shape).reshape ((r.axes p.input).map r.size)).permute
        (carried.map ((r.axes p.input).idxOf ·)) = .ok d) {slotted full : Shape}
    (slotted_eq : (r.axes p.output).map (Axis.slot r.size (r.axes p.input)) = slotted)
    (full_eq : (r.axes p.output).map r.size = full) :
    Repeat.ofPattern p shape r = .ok {
      resolution := r
      before := (d.reshape slotted).steps
      expanded := if carried.length ≠ full.length then some full else none
      after := ((Draft.start (if carried.length ≠ full.length then full
        else (d.reshape slotted).shape)).reshape r.outputShape).steps } := by
  subst carried_eq slotted_eq full_eq
  have full : r.axisSizes p.text (r.axes p.output) = .ok ((r.axes p.output).map r.size) :=
    suits.axisSizes_eq .output
  have sizes : r.axisSizes p.text (r.axes p.input) = .ok ((r.axes p.input).map r.size) :=
    suits.axisSizes_eq .input
  have slots : List.zipWith (fun a size => if a ∈ r.axes p.input then size else 1)
      (r.axes p.output) ((r.axes p.output).map r.size)
      = (r.axes p.output).map (Axis.slot r.size (r.axes p.input)) := by
    rw [List.zipWith_map_right, List.zipWith_self]
    rfl
  have sub : (r.axes p.output).filter (· ∈ r.axes p.input) ⊆ r.axes p.input := by
    intro a ha
    exact of_decide_eq_true (List.mem_filter.mp ha).2
  show (r.axisSizes p.text (r.axes p.output) >>= fun full =>
    r.axisSizes p.text (r.axes p.input) >>= fun sizes =>
    Axis.positions p.text (r.axes p.input) ((r.axes p.output).filter (· ∈ r.axes p.input))
      >>= fun positions => ((Draft.start shape).reshape sizes).permute positions
      >>= fun draft => _) = _
  rw [full, sizes, Axis.positions_eq sub]
  show (((Draft.start shape).reshape ((r.axes p.input).map r.size)).permute
    (((r.axes p.output).filter (· ∈ r.axes p.input)).map ((r.axes p.input).idxOf ·))
      >>= fun draft => _) = _
  rw [drafted, List.length_map, ← slots]
  rfl

variable {α : Type} [Scalar α] {x : Tensor α}

lemma exists_generalSteps (suits : r.Suits .rearranging p x.shape given) :
    ∃ steps, generalSteps p x.shape r = .ok steps := by
  have perm := suits.valid.perm_axes r.covered.length
  obtain ⟨d, u, drafted, -⟩ := suits.exists_ordered suits.shows perm
  refine ⟨(d.reshape r.outputShape).steps, ?_⟩
  rw [generalSteps_eq suits, bind_eq_ok]
  exact ⟨d, drafted, rfl⟩

/-- A rearrangement can be planned, and the plan takes the tensor to the output side. -/
lemma exists_rearrange (suits : r.Suits .rearranging p x.shape given) :
    ∃ plan y, Rearrange.ofPattern p x.shape r = .ok plan ∧ plan.resolution = r
      ∧ plan.run (Tensor.backend α) x = .ok y
      ∧ y.ShowsSide r.covered.length r.size p.output fun σ => x.get? (r.index p.input σ) := by
  obtain ⟨steps, planned⟩ : ∃ steps, rearrangeSteps p x.shape r = .ok steps := by
    unfold rearrangeSteps
    split
    · exact ⟨_, rfl⟩
    · obtain ⟨general, planned⟩ := exists_generalSteps suits
      rw [planned]
      exact ⟨_, rfl⟩
  obtain ⟨y, taken, shows⟩ := rearrangeSteps_make suits suits.shows planned
  refine ⟨⟨r, steps⟩, y, ?_, rfl, taken, shows⟩
  rw [Rearrange.ofPattern, planned]
  rfl

/-- A repetition can be planned, and the plan takes the tensor to the output side. -/
lemma exists_repeat (suits : r.Suits .repeating p x.shape given) :
    ∃ plan y, Repeat.ofPattern p x.shape r = .ok plan ∧ plan.resolution = r
      ∧ plan.run (Tensor.backend α) x = .ok y
      ∧ y.ShowsSide r.covered.length r.size p.output
        fun σ => x.get? (r.index p.input (Axis.restrict (r.axes p.input) σ)) := by
  obtain ⟨d, u, drafted, -⟩ := suits.exists_ordered suits.shows (carried_perm suits)
  have planned := repeat_eq suits rfl drafted rfl rfl
  obtain ⟨resolution, y, ran, shows⟩ := repeat_makes suits suits.shows planned
  exact ⟨_, y, planned, resolution, ran, shows⟩

/-- A reduction can be planned, of as many axes as the output does not have. -/
lemma exists_reduce (suits : r.Suits .reducing p x.shape given) (reduction : Reduction)
    (keep : Bool) :
    ∃ plan, Reduce.ofPattern p x.shape r reduction keep = .ok plan
      ∧ plan.axes = List.range' (r.axes p.output).length
        ((r.axes p.input).filter (· ∉ r.axes p.output)).length
      ∧ plan.outputShape = r.outputShape
        ++ if keep then ((r.axes p.input).filter (· ∉ r.axes p.output)).map fun _ => 1 else [] := by
  have perm := ordered_perm suits
  obtain ⟨d, u, drafted, makes, shows⟩ := suits.exists_ordered suits.shows perm
  refine ⟨_, reduce_eq suits rfl rfl perm drafted (makes.shape.symm.trans shows.1), rfl, ?_⟩
  rw [List.map_map]
  rfl

end Plan

end AxisNotation
