import AxisNotation.Backend.Rehearsal
import AxisNotation.Proofs.Operation

/-!
# Sessions with an engine

A session is a sequence of requests to one engine. Every answer is the one of an engine that keeps
no patterns (`Engine.session_answers`), and what the engine keeps is what its cache is left with by
the texts of the requests and by the clears (`Engine.session_cache`).
-/

namespace AxisNotation

/-- A request to an engine: to read a text, to plan or perform an operation, or to clear the
cache. -/
inductive Request (ε τ : Type) where
  | parse (text : String)
  | planRearrange (text : String) (shape : Shape) (explicit : SizeList)
  | planReduce (text : String) (shape : Shape) (reduction : Reduction) (keep : Bool)
    (explicit : SizeList)
  | planRepeat (text : String) (shape : Shape) (explicit : SizeList)
  | perform (op : Operation) (b : Backend ε τ) (tensor : τ) (text : String) (explicit : SizeList)
  | clear

/-- What an engine answers to a request. -/
inductive Answer (ε τ : Type) where
  | pattern (result : Except PatternError Pattern)
  | rearrangement (plan : Outcome Plan.Rearrange)
  | reduction (plan : Outcome Plan.Reduce)
  | repetition (plan : Outcome Plan.Repeat)
  | tensor (result : Except (ExecutionError ε) τ)
  | cleared

/-- What a request asks of a cache. -/
inductive Visit where
  | read (text : String)
  | clear

/-- Each request but a clear reads one text, whatever else it asks for. -/
def Request.visit {ε τ : Type} : Request ε τ → Visit
  | parse text => .read text
  | planRearrange text _ _ => .read text
  | planReduce text _ _ _ _ => .read text
  | planRepeat text _ _ => .read text
  | perform _ _ _ text _ => .read text
  | clear => .clear

namespace Cache

/-- The cache after a visit. -/
def visit (c : Cache) : Visit → Cache
  | .read text => (c.get text).2
  | .clear => c.clear

/-- What a cache of some capacity, empty at first, is left with by some visits. -/
def after (capacity : Nat) (visits : List Visit) : Cache :=
  visits.foldl visit (.empty capacity)

end Cache

namespace Engine

variable {ε τ : Type}

/-- Answers a request. -/
def answer (e : Engine) : Request ε τ → Answer ε τ × Engine
  | .parse text =>
    let (result, e) := e.parse text
    (.pattern result, e)
  | .planRearrange text shape explicit =>
    let (plan, e) := e.planRearrange text shape explicit
    (.rearrangement plan, e)
  | .planReduce text shape reduction keep explicit =>
    let (plan, e) := e.planReduce text shape reduction keep explicit
    (.reduction plan, e)
  | .planRepeat text shape explicit =>
    let (plan, e) := e.planRepeat text shape explicit
    (.repetition plan, e)
  | .perform op b tensor text explicit =>
    let (result, e) := e.perform op b tensor text explicit
    (.tensor result, e)
  | .clear => (.cleared, e.clear)

/-- Answers some requests one after another. -/
def session (e : Engine) : List (Request ε τ) → List (Answer ε τ) × Engine
  | [] => ([], e)
  | request :: requests =>
    let (first, e) := e.answer request
    let (rest, e) := e.session requests
    (first :: rest, e)

/-- The engine after a visit. -/
def visit (e : Engine) : Visit → Engine
  | .read text => (e.parse text).2
  | .clear => e.clear

/-- What a request leaves of an engine depends on its visit alone. -/
lemma answer_snd (e : Engine) (request : Request ε τ) :
    (e.answer request).2 = e.visit request.visit := by
  cases request with
  | perform op b tensor text explicit => cases op <;> rfl
  | _ => rfl

lemma config_visit (e : Engine) (v : Visit) : (e.visit v).config = e.config := by
  cases v with
  | read text => exact e.config_parse text
  | clear => rfl

lemma cache_visit (e : Engine) (v : Visit) : (e.visit v).cache = e.cache.map (·.visit v) := by
  cases v with
  | read text =>
    show (e.parse text).2.cache = e.cache.map fun c => (c.get text).2
    unfold Engine.parse
    split
    · next none => rw [none, Option.map_none]
    · next c cached => rw [cached, Option.map_some]
  | clear => rfl

lemma Reachable.visit {e : Engine} (h : e.Reachable) (v : Visit) : (e.visit v).Reachable := by
  cases v with
  | read text => exact h.parse text
  | clear => exact h.clear

/-- Of the configuration only the strictness matters once a pattern has been read. -/
lemma resolve_congr {config config' : Config} (strict : config.strict = config'.strict)
    (kind : Kind) (shape : Shape) (explicit : SizeList) :
    resolve config kind shape explicit = resolve config' kind shape explicit := by
  unfold resolve
  rw [strict]

section Answers

variable {e e' : Engine} (h : e.Reachable) (h' : e'.Reachable)
  (strict : e.config.strict = e'.config.strict)

include h h' strict

lemma prepare_congr (kind : Kind) (text : String) (shape : Shape) (explicit : SizeList) :
    (e.prepare kind text shape explicit).1 = (e'.prepare kind text shape explicit).1 := by
  show (Outcome.ofPattern (e.parse text).1 >>= resolve (e.parse text).2.config kind shape explicit)
    = Outcome.ofPattern (e'.parse text).1 >>= resolve (e'.parse text).2.config kind shape explicit
  rw [h.parse_eq, h'.parse_eq, e.config_parse, e'.config_parse, resolve_congr strict]

/-- Engines in use that are equally strict give the same answer. -/
lemma answer_congr (request : Request ε τ) : (e.answer request).1 = (e'.answer request).1 := by
  have prepared := prepare_congr h h' strict
  cases request with
  | parse text =>
    show Answer.pattern (e.parse text).1 = .pattern (e'.parse text).1
    rw [h.parse_eq, h'.parse_eq]
  | planRearrange text shape explicit =>
    exact congrArg (fun q => Answer.rearrangement (q >>= _)) (prepared _ text shape explicit)
  | planReduce text shape reduction keep explicit =>
    exact congrArg (fun q => Answer.reduction (q >>= _)) (prepared _ text shape explicit)
  | planRepeat text shape explicit =>
    exact congrArg (fun q => Answer.repetition (q >>= _)) (prepared _ text shape explicit)
  | perform op b tensor text explicit =>
    have prepared := fun kind => prepared kind text (b.shape tensor) explicit
    cases op with
    | rearrange => exact congrArg (fun q => Answer.tensor (execute (q >>= _) _)) (prepared _)
    | reduce reduction keep =>
      exact congrArg (fun q => Answer.tensor (execute (q >>= _) _)) (prepared _)
    | repeatAlong => exact congrArg (fun q => Answer.tensor (execute (q >>= _) _)) (prepared _)
  | clear => rfl

end Answers

/-- The engine that keeps no patterns. -/
def uncached (strict : Bool) : Engine :=
  .new ⟨false, 0, strict⟩

/-- In a session every request is answered as by an engine that keeps nothing and has not been asked
anything before. -/
theorem session_answers {e : Engine} (h : e.Reachable) (requests : List (Request ε τ)) :
    (e.session requests).1
      = requests.map fun request => ((uncached e.config.strict).answer request).1 := by
  induction requests generalizing e with
  | nil => rfl
  | cons request requests ih =>
    show (e.answer request).1 :: ((e.answer request).2.session requests).1 = _
    rw [answer_snd, ih (h.visit _), config_visit, List.map_cons]
    congr 1
    exact answer_congr h (.new ⟨false, 0, e.config.strict⟩) rfl request

/-- A session leaves in the cache what its visits leave there. -/
theorem session_cache (e : Engine) (requests : List (Request ε τ)) :
    (e.session requests).2.cache
      = e.cache.map fun c => (requests.map Request.visit).foldl Cache.visit c := by
  induction requests generalizing e with
  | nil => exact Option.map_id'.symm
  | cons request requests ih =>
    show ((e.answer request).2.session requests).2.cache = _
    rw [answer_snd, ih, cache_visit, Option.map_map]
    rfl

/-- Two engines that are equally strict answer every session alike, with or without a cache and
whatever its capacity. What is in the cache at the end depends on the capacity and on the order of
the texts and the clears alone. -/
theorem cache_invisible (config config' : Config) (requests : List (Request ε τ)) :
    (config.strict = config'.strict →
      ((new config).session requests).1 = ((new config').session requests).1)
    ∧ ((new config).session requests).2.cache
      = if config.useCache then some (.after config.capacity (requests.map Request.visit))
        else none := by
  constructor
  · intro strict
    have strict : (new config).config.strict = (new config').config.strict := strict
    rw [session_answers (.new config), session_answers (.new config'), strict]
  · rw [session_cache, new]
    cases config.useCache with
    | true => rfl
    | false => rfl

/-- Requests of which the second finds its text in the cache, the third is refused after its text
has been read, and the last finds no room for its text. -/
def tour : List (Request Rehearsal.Stop Rehearsal) :=
  [.planRearrange "h w -> w h" [3, 4] [],
    .perform .rearrange (Rehearsal.backend none) (.start [5, 6]) "h w -> w h" [],
    .clear,
    .planReduce "a b -> c" [2, 3] .sum false [],
    .planRepeat "a -> a a" [2] []]

/-- A cache for one pattern and no cache at all answer alike, and the refused pattern is kept. -/
theorem cache_invisible_tour :
    (Config.mk true 1 true).strict = Config.safe.strict
      ∧ ((new ⟨true, 1, true⟩).session tour).1 = ((new .safe).session tour).1
      ∧ ((new ⟨true, 1, true⟩).session tour).2.cache.map
        (fun c => (c.size, c.contains "a b -> c")) = some (1, true) := by
  obtain ⟨answers, cache⟩ := cache_invisible ⟨true, 1, true⟩ .safe tour
  refine ⟨rfl, answers rfl, ?_⟩
  rw [cache]
  decide +kernel

end Engine

end AxisNotation
