import AxisNotation.Proofs.Contract
import AxisNotation.Proofs.Operation

/-!
# Running a plan call by call

The calls of a backend may fail and change a state, also when they fail. A run ends with the first
call that fails (`Service.FailsAt`), or with the tensor that the last call makes
(`Service.Completes`). Which calls have been made is written into a log that nothing takes back
(`Service.logged`): all up to the first failure and none after it, and none at all if the pattern is
at fault (`Engine.execution_exact`).
-/

namespace AxisNotation

variable {ε σ τ α β : Type}

/-- What a computation comes to that starts in a state, and the state that it leaves. -/
def trial (x : ExceptT ε (StateM σ) α) (s : σ) : Except ε α × σ :=
  x.run.run s

/-- What a computation comes to that writes a log, the log that it leaves, and the state. -/
def record (x : ExceptT ε (StateT (List Call) (StateM σ)) α) (log : List Call) (s : σ) :
    (Except ε α × List Call) × σ :=
  (x.run.run log).run s

section Bind

variable {s s' : σ} {log log' : List Call} {a : α} {e : ε}

/-- What follows a computation depends on what that comes to. -/
lemma trial_bind_eq (x : ExceptT ε (StateM σ) α) (f : α → ExceptT ε (StateM σ) β) (s : σ) :
    trial (x >>= f) s = (ExceptT.bindCont f (trial x s).1).run (trial x s).2 :=
  rfl

lemma trial_bind {x : ExceptT ε (StateM σ) α} (f : α → ExceptT ε (StateM σ) β)
    (h : trial x s = (.ok a, s')) : trial (x >>= f) s = trial (f a) s' := by
  rw [trial_bind_eq, h]
  rfl

lemma trial_bind_error {x : ExceptT ε (StateM σ) α} (f : α → ExceptT ε (StateM σ) β)
    (h : trial x s = (.error e, s')) : trial (x >>= f) s = (.error e, s') := by
  rw [trial_bind_eq, h]
  rfl

lemma record_bind_eq (x : ExceptT ε (StateT (List Call) (StateM σ)) α)
    (f : α → ExceptT ε (StateT (List Call) (StateM σ)) β) (log : List Call) (s : σ) :
    record (x >>= f) log s
      = ((ExceptT.bindCont f (record x log s).1.1).run (record x log s).1.2).run
        (record x log s).2 :=
  rfl

variable {x : ExceptT ε (StateT (List Call) (StateM σ)) α}

lemma record_bind (f : α → ExceptT ε (StateT (List Call) (StateM σ)) β)
    (h : record x log s = ((.ok a, log'), s')) :
    record (x >>= f) log s = record (f a) log' s' := by
  rw [record_bind_eq, h]
  rfl

lemma record_bind_error (f : α → ExceptT ε (StateT (List Call) (StateM σ)) β)
    (h : record x log s = ((.error e, log'), s')) :
    record (x >>= f) log s = ((.error e, log'), s') := by
  rw [record_bind_eq, h]
  rfl

end Bind

namespace Service

/-- The backend that performs every call as another one does and writes it down when it is made,
whatever comes of it. -/
def logged {m : Type → Type} [Monad m] (b : Service (ExceptT ε m) τ) :
    Service (ExceptT ε (StateT (List Call) m)) τ where
  shape := b.shape
  perform call t := ExceptT.mk do
    modify (· ++ [call])
    (b.perform call t).run

/-- All calls succeed, one after another, from a tensor and a state to a tensor and a state. -/
inductive Completes (b : Service (ExceptT ε (StateM σ)) τ) :
    τ → σ → List Call → τ → σ → Prop where
  | nil {t s} : Completes b t s [] t s
  | cons {t u v s s' s'' c cs} : trial (b.perform c t) s = (.ok u, s') →
    Completes b u s' cs v s'' → Completes b t s (c :: cs) v s''

/-- The first call that fails has a number, counted from zero, and an error, and leaves a state. -/
inductive FailsAt (b : Service (ExceptT ε (StateM σ)) τ) :
    τ → σ → List Call → Nat → ε → σ → Prop where
  | here {t s s' c cs e} : trial (b.perform c t) s = (.error e, s') →
    FailsAt b t s (c :: cs) 0 e s'
  | later {t u s s' s'' c cs k e} : trial (b.perform c t) s = (.ok u, s') →
    FailsAt b u s' cs k e s'' → FailsAt b t s (c :: cs) (k + 1) e s''

/-- What a run comes to that stands for some calls: its result and the state on a backend, and the
same with the log on the backend that writes the calls down. The first failure is the result, and no
call follows it; without a failure all calls are made, and the last tensor is the result. -/
structure Ends (b : Service (ExceptT ε (StateM σ)) τ) (t : τ) (s : σ) (log calls : List Call)
    (result : Except ε τ × σ) (recorded : (Except ε τ × List Call) × σ) : Prop where
  fails : ∀ k e s', b.FailsAt t s calls k e s' →
    result = (.error e, s') ∧ recorded = ((.error e, log ++ calls.take (k + 1)), s')
  completes : (∀ k e s', ¬ b.FailsAt t s calls k e s') →
    ∃ u s', b.Completes t s calls u s' ∧ result = (.ok u, s')
      ∧ recorded = ((.ok u, log ++ calls), s')

variable {b : Service (ExceptT ε (StateM σ)) τ} {t u : τ} {s s' : σ} {c : Call} {cs : List Call}
  {k : Nat} {e : ε}

/-- A call is written down, whatever comes of it. -/
lemma record_perform {result : Except ε τ} (h : trial (b.perform c t) s = (result, s'))
    (log : List Call) : record (b.logged.perform c t) log s = ((result, log ++ [c]), s') := by
  have written : record (b.logged.perform c t) log s
      = (((trial (b.perform c t) s).1, log ++ [c]), (trial (b.perform c t) s).2) := rfl
  rw [written, h]

lemma Completes.performAll (h : b.Completes t s cs u s') (log : List Call) :
    trial (b.performAll t cs) s = (.ok u, s')
      ∧ record (b.logged.performAll t cs) log s = ((.ok u, log ++ cs), s') := by
  induction h generalizing log with
  | nil =>
    rw [List.append_nil]
    exact ⟨rfl, rfl⟩
  | @cons t u v s s' s'' c cs performed _ ih =>
    obtain ⟨rest, recorded⟩ := ih (log ++ [c])
    rw [performAll_cons, performAll_cons, trial_bind _ performed,
      record_bind _ (record_perform performed log), rest, recorded, List.append_assoc]
    exact ⟨rfl, rfl⟩

lemma FailsAt.performAll (h : b.FailsAt t s cs k e s') (log : List Call) :
    trial (b.performAll t cs) s = (.error e, s')
      ∧ record (b.logged.performAll t cs) log s = ((.error e, log ++ cs.take (k + 1)), s') := by
  induction h generalizing log with
  | @here t s s' c cs e failed =>
    rw [performAll_cons, performAll_cons, trial_bind_error _ failed,
      record_bind_error _ (record_perform failed log)]
    exact ⟨rfl, rfl⟩
  | @later t u s s' s'' c cs k e performed _ ih =>
    obtain ⟨rest, recorded⟩ := ih (log ++ [c])
    rw [performAll_cons, performAll_cons, trial_bind _ performed,
      record_bind _ (record_perform performed log), rest, recorded, List.append_assoc]
    exact ⟨rfl, rfl⟩

lemma completes_or_fails (b : Service (ExceptT ε (StateM σ)) τ) (t : τ) (s : σ) (cs : List Call) :
    (∃ u s', b.Completes t s cs u s') ∨ ∃ k e s', b.FailsAt t s cs k e s' := by
  induction cs generalizing t s with
  | nil => exact .inl ⟨t, s, .nil⟩
  | cons c cs ih =>
    obtain ⟨result, s', performed⟩ : ∃ result s', trial (b.perform c t) s = (result, s') :=
      ⟨_, _, rfl⟩
    cases result with
    | error e => exact .inr ⟨0, e, s', .here performed⟩
    | ok u =>
      obtain ⟨v, s'', h⟩ | ⟨k, e, s'', h⟩ := ih u s'
      · exact .inl ⟨v, s'', .cons performed h⟩
      · exact .inr ⟨k + 1, e, s'', .later performed h⟩

/-- Performing calls one after another comes to what the calls come to. -/
theorem ends_performAll (b : Service (ExceptT ε (StateM σ)) τ) (t : τ) (s : σ)
    (log cs : List Call) :
    b.Ends t s log cs (trial (b.performAll t cs) s) (record (b.logged.performAll t cs) log s) where
  fails _ _ _ h := h.performAll log
  completes none := by
    obtain ⟨u, s', h⟩ | ⟨k, e, s', h⟩ := b.completes_or_fails t s cs
    · exact ⟨u, s', h, h.performAll log⟩
    · exact absurd h (none k e s')

end Service

namespace Engine

/-- The calls that an engine plans for an operation. -/
def planCalls (e : Engine) (op : Operation) (text : String) (shape : Shape) (explicit : SizeList) :
    Outcome (List Call) :=
  match op with
  | .rearrange => (e.planRearrange text shape explicit).1.map Plan.Rearrange.calls
  | .reduce reduction keep =>
    (e.planReduce text shape reduction keep explicit).1.map Plan.Reduce.calls
  | .repeatAlong => (e.planRepeat text shape explicit).1.map Plan.Repeat.calls

section Calls

variable {m n : Type → Type} [Monad m] [Reports m n]

/-- A plan whose run is performing its calls is executed by performing them. -/
lemma execute_map {P : Type} {plan : Outcome P} {calls : P → List Call} {run : P → m τ}
    {b : Service m τ} {t : τ} (run_eq : ∀ p, run p = b.performAll t (calls p)) :
    execute plan run = execute (plan.map calls) (b.performAll t) := by
  cases plan with
  | error failure => rfl
  | ok p => exact congrArg Reports.report (run_eq p)

variable [LawfulMonad m]

/-- An operation of an engine performs the planned calls. -/
lemma perform_eq_execute (e : Engine) (op : Operation) (b : Service m τ) (t : τ) (text : String)
    (explicit : SizeList) :
    (e.perform op b t text explicit).1
      = execute (e.planCalls op text (b.shape t) explicit) (b.performAll t) := by
  cases op with
  | rearrange => exact execute_map fun p => p.run_eq b t
  | reduce reduction keep => exact execute_map fun p => p.run_eq b t
  | repeatAlong => exact execute_map fun p => p.run_eq b t

end Calls

/-- A result of a backend as an engine returns it. -/
abbrev returned (result : Except ε τ) : Except (ExecutionError ε) τ :=
  result.mapError .backend

/-- Running a plan makes the calls that it stands for, up to the first that fails, and returns the
error of that call or the last tensor. An operation of an engine whose pattern is at fault returns
that fault and makes no call: it leaves the state and the log as they are. Otherwise it makes the
calls of the plan, and returns an error of the backend as such. -/
theorem execution_exact (b : Service (ExceptT ε (StateM σ)) τ) (t : τ) (s : σ) (log : List Call) :
    (∀ p : Plan.Rearrange,
      b.Ends t s log p.calls (trial (p.run b t) s) (record (p.run b.logged t) log s))
    ∧ (∀ p : Plan.Reduce,
      b.Ends t s log p.calls (trial (p.run b t) s) (record (p.run b.logged t) log s))
    ∧ (∀ p : Plan.Repeat,
      b.Ends t s log p.calls (trial (p.run b t) s) (record (p.run b.logged t) log s))
    ∧ ∀ (e : Engine) (op : Operation) (text : String) (explicit : SizeList),
      (∀ failure, e.planCalls op text (b.shape t) explicit = .error failure →
        trial (e.perform op b t text explicit).1 s = (.error (.pattern failure), s)
        ∧ record (e.perform op b.logged t text explicit).1 log s
          = ((.error (.pattern failure), log), s))
      ∧ ∀ calls, e.planCalls op text (b.shape t) explicit = .ok calls →
        ∃ result recorded, b.Ends t s log calls result recorded
          ∧ trial (e.perform op b t text explicit).1 s = (returned result.1, result.2)
          ∧ record (e.perform op b.logged t text explicit).1 log s
            = ((returned recorded.1.1, recorded.1.2), recorded.2) := by
  refine ⟨fun p => ?_, fun p => ?_, fun p => ?_, fun e op text explicit =>
    ⟨fun failure failed => ?_, fun calls planned => ?_⟩⟩
  · rw [p.run_eq, p.run_eq]
    exact b.ends_performAll t s log p.calls
  · rw [p.run_eq, p.run_eq]
    exact b.ends_performAll t s log p.calls
  · rw [p.run_eq, p.run_eq]
    exact b.ends_performAll t s log p.calls
  · have failed' : e.planCalls op text (b.logged.shape t) explicit = .error failure := failed
    rw [perform_eq_execute, perform_eq_execute, failed, failed']
    exact ⟨rfl, rfl⟩
  · have planned' : e.planCalls op text (b.logged.shape t) explicit = .ok calls := planned
    refine ⟨_, _, b.ends_performAll t s log calls, ?_, ?_⟩
    · rw [perform_eq_execute, planned]
      rfl
    · rw [perform_eq_execute, planned']
      rfl

/-- The maximum over one axis of three, on a backend that fails at its second call, which is the
last one in its state and in the log. A pattern that is not valid makes no call at all. -/
theorem execution_exact_reduction :
    (∃ plan, ((Engine.new .standard).planReduce "a b c -> c a" [2, 3, 4] .max false []).1 = .ok plan
      ∧ record (plan.run (Rehearsal.recorder (some 1)).logged [2, 3, 4]) [] []
        = ((.error 1, [.permute [2, 0, 1], .reduce [2] .max false]),
          [.permute [2, 0, 1], .reduce [2] .max false]))
    ∧ trial ((Engine.new .standard).reduce (Rehearsal.recorder (some 1)) [2, 3, 4] "a b c -> c a"
        .max false []).1 [] = (.error (.backend 1), [.permute [2, 0, 1], .reduce [2] .max false])
    ∧ ∃ failure, trial ((Engine.new .standard).rearrange (Rehearsal.recorder none) [2, 3] "a b -> a"
        []).1 [] = (.error (.pattern failure), []) := by
  have planned : ((Engine.new .standard).planReduce "a b c -> c a" [2, 3, 4] .max false []).1.map
      Plan.Reduce.calls = .ok [.permute [2, 0, 1], .reduce [2] .max false] := by decide +kernel
  obtain ⟨plan, made, calls⟩ := map_eq_ok.mp planned
  have fails : (Rehearsal.recorder (some 1)).FailsAt [2, 3, 4] []
      [.permute [2, 0, 1], .reduce [2] .max false] 1 1
      [.permute [2, 0, 1], .reduce [2] .max false] := .later rfl (.here rfl)
  obtain ⟨-, reduces, -, performs⟩ :=
    execution_exact (Rehearsal.recorder (some 1)) [2, 3, 4] [] []
  refine ⟨⟨plan, made, ?_⟩, ?_, ?_⟩
  · obtain ⟨-, recorded⟩ := (reduces plan).fails _ _ _ (calls ▸ fails)
    rw [recorded, calls]
    rfl
  · obtain ⟨-, ends⟩ := performs (.new .standard) (.reduce .max false) "a b c -> c a" []
    obtain ⟨result, recorded, ends, performed, -⟩ := ends _ planned
    obtain ⟨rfl, -⟩ := ends.fails _ _ _ fails
    exact performed
  · have refused : ∃ failure, (Engine.new .standard).planCalls .rearrange "a b -> a" [2, 3] []
        = .error failure := by
      have fails : ((Engine.new .standard).planCalls .rearrange "a b -> a" [2, 3] []).toOption
          = none := by decide +kernel
      cases e : (Engine.new .standard).planCalls .rearrange "a b -> a" [2, 3] [] with
      | error failure => exact ⟨failure, rfl⟩
      | ok calls =>
        rw [e] at fails
        cases fails
    obtain ⟨failure, refused⟩ := refused
    obtain ⟨-, -, -, performs⟩ := execution_exact (Rehearsal.recorder none) [2, 3] [] []
    obtain ⟨unmade, -⟩ := performs (.new .standard) .rearrange "a b -> a" []
    exact ⟨failure, (unmade failure refused).1⟩

end Engine

end AxisNotation
