import AxisNotation.Call

/-!
# Backends

A backend holds tensors of some type and performs calls on them in a monad. A plan is run on a
backend call by call: each call gets the tensor that the one before it has made, and what ends a
computation of the monad ends the run. The monad may have a state beside its failures, which calls
change even if they fail. A backend whose calls do nothing but make a tensor or fail has the monad
of failures.
-/

namespace AxisNotation

/-- An implementation of the calls on tensors of type `τ`, in a monad. -/
structure Service (m : Type → Type) (τ : Type) where
  shape : τ → Shape
  perform : Call → τ → m τ

/-- An implementation of the calls on tensors of type `τ`, with failures of type `ε`. -/
abbrev Backend (ε τ : Type) :=
  Service (Except ε) τ

variable {m : Type → Type} [Monad m] {τ : Type}

namespace Service

/-- Takes a step. -/
def takeStep (b : Service m τ) (tensor : τ) : Step → m τ
  | .identity => pure tensor
  | .transpose => b.perform .transpose tensor
  | .permute axes => b.perform (.permute axes) tensor
  | .reshape shape => b.perform (.reshape shape) tensor

/-- Takes some steps one after another. -/
def takeSteps (b : Service m τ) (tensor : τ) (steps : List Step) : m τ :=
  steps.foldlM b.takeStep tensor

end Service

namespace Plan

/-- Rearranges a tensor by a plan. -/
def Rearrange.run (p : Rearrange) (b : Service m τ) (tensor : τ) : m τ :=
  b.takeSteps tensor p.steps

/-- Reduces a tensor by a plan. -/
def Reduce.run (p : Reduce) (b : Service m τ) (tensor : τ) : m τ := do
  let ordered ← b.takeSteps tensor p.before
  let reduced ←
    if p.reduces then b.perform (.reduce p.axes p.reduction p.keep) ordered else pure ordered
  b.takeSteps reduced p.after

/-- Repeats a tensor by a plan. -/
def Repeat.run (p : Repeat) (b : Service m τ) (tensor : τ) : m τ := do
  let slotted ← b.takeSteps tensor p.before
  let filled ←
    match p.expanded with
    | some shape => b.perform (.expand shape) slotted
    | none => pure slotted
  b.takeSteps filled p.after

end Plan

end AxisNotation
