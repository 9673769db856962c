import AxisNotation.Backend
import AxisNotation.Cache
import AxisNotation.Config
import AxisNotation.Pattern.Validity
import AxisNotation.Plan.Rearrange
import AxisNotation.Plan.Reduce
import AxisNotation.Plan.Repeat
import AxisNotation.Resolution.Solver

/-!
# Engines

An engine reads a pattern, checks it, resolves it on the shape of a tensor, plans the operation and
runs the plan on a backend. Its only state is its cache, so each function gives the engine after the
call beside its result. The run is a computation in the monad of the backend, and what it fails with
is reported beside the failures of patterns (`Reports`).
-/

namespace AxisNotation

/-- A configuration and, if it asks for one, a cache. -/
structure Engine where
  config : Config
  cache : Option Cache

/-- Why an operation on a tensor has no result: there is no plan, or the backend has failed. -/
inductive ExecutionError (ε : Type) where
  | pattern (failure : Failure)
  | backend (error : ε)
  deriving DecidableEq, Repr

/-- The message of a failure of the backend, given the backend's own. -/
def ExecutionError.backendMessage (message : String) : String :=
  "tensor operation failed: " ++ message

/-- A monad `n` that reports what a computation of `m` comes to, and the failures of patterns. -/
class Reports (m : Type → Type) (n : outParam (Type → Type)) where
  /-- The failure of a pattern. -/
  refuse {α : Type} : Failure → n α
  /-- A computation whose failures are those of the backend. -/
  report {α : Type} : m α → n α

instance {ε : Type} : Reports (Except ε) (Except (ExecutionError ε)) where
  refuse failure := .error (.pattern failure)
  report x := x.mapError .backend

instance {ε : Type} {m : Type → Type} [Monad m] :
    Reports (ExceptT ε m) (ExceptT (ExecutionError ε) m) where
  refuse failure := throw (.pattern failure)
  report x := x.adapt .backend

namespace Engine

/-- The engine of a configuration, which has not read anything. -/
def new (config : Config) : Engine :=
  ⟨config, if config.useCache then some (.empty config.capacity) else none⟩

/-- The engine without anything in its cache. -/
def clear (e : Engine) : Engine :=
  { e with cache := e.cache.map Cache.clear }

/-- The pattern of a text. -/
def parse (e : Engine) (text : String) : Except PatternError Pattern × Engine :=
  match e.cache with
  | none => (Pattern.parse text, e)
  | some cache =>
    let (reading, cache) := cache.get text
    (reading.map Reading.pattern, { e with cache := some cache })

/-- Checks a pattern for a kind of operation and resolves it on a shape. -/
def resolve (config : Config) (kind : Kind) (shape : Shape) (explicit : SizeList) (p : Pattern) :
    Outcome (Pattern × Resolution) := do
  Outcome.ofPattern (p.check kind explicit.names)
  if config.strict then Outcome.ofPattern (p.checkGiven explicit.names)
  return (p, ← Resolution.solve kind p shape explicit)

/-- Reads a pattern, checks it and resolves it on a shape. -/
def prepare (e : Engine) (kind : Kind) (text : String) (shape : Shape) (explicit : SizeList) :
    Outcome (Pattern × Resolution) × Engine :=
  let (parsed, e) := e.parse text
  (Outcome.ofPattern parsed >>= resolve e.config kind shape explicit, e)

/-- Plans to rearrange a tensor of the given shape. -/
def planRearrange (e : Engine) (text : String) (shape : Shape) (explicit : SizeList) :
    Outcome Plan.Rearrange × Engine :=
  let (prepared, e) := e.prepare .rearranging text shape explicit
  (prepared >>= fun (p, r) => Plan.Rearrange.ofPattern p shape r, e)

/-- Plans to reduce a tensor of the given shape. -/
def planReduce (e : Engine) (text : String) (shape : Shape) (reduction : Reduction) (keep : Bool)
    (explicit : SizeList) : Outcome Plan.Reduce × Engine :=
  let (prepared, e) := e.prepare .reducing text shape explicit
  (prepared >>= fun (p, r) => Plan.Reduce.ofPattern p shape r reduction keep, e)

/-- Plans to repeat a tensor of the given shape. -/
def planRepeat (e : Engine) (text : String) (shape : Shape) (explicit : SizeList) :
    Outcome Plan.Repeat × Engine :=
  let (prepared, e) := e.prepare .repeating text shape explicit
  (prepared >>= fun (p, r) => Plan.Repeat.ofPattern p shape r, e)

variable {m n : Type → Type} [Monad m] [Reports m n] {τ : Type}

/-- Runs a plan, if there is one. -/
def execute {P : Type} (plan : Outcome P) (run : P → m τ) : n τ :=
  match plan with
  | .error failure => Reports.refuse m failure
  | .ok p => Reports.report (run p)

/-- Rearranges a tensor of a backend. -/
def rearrange (e : Engine) (b : Service m τ) (tensor : τ) (text : String) (explicit : SizeList) :
    n τ × Engine :=
  let (plan, e) := e.planRearrange text (b.shape tensor) explicit
  (execute plan fun p => p.run b tensor, e)

/-- Reduces the axes of a tensor that the output of a pattern does not have. -/
def reduce (e : Engine) (b : Service m τ) (tensor : τ) (text : String) (reduction : Reduction)
    (keep : Bool) (explicit : SizeList) : n τ × Engine :=
  let (plan, e) := e.planReduce text (b.shape tensor) reduction keep explicit
  (execute plan fun p => p.run b tensor, e)

/-- Repeats a tensor along the axes that only the output of a pattern has. -/
def repeatAlong (e : Engine) (b : Service m τ) (tensor : τ) (text : String) (explicit : SizeList) :
    n τ × Engine :=
  let (plan, e) := e.planRepeat text (b.shape tensor) explicit
  (execute plan fun p => p.run b tensor, e)

end Engine

end AxisNotation
