import AxisNotation.Error
import AxisNotation.Step

/-!
# Drafts

A draft is a list of steps in the making, together with the shape that they lead to. Steps that
change nothing are not recorded, and of two reshapes in a row only the effect of both is kept.
-/

namespace AxisNotation

/-- A step as it is recorded in a draft, with the shape that it is applied to. -/
structure RecordedStep where
  before : Shape
  step : Step
  deriving DecidableEq, Repr

/-- The steps recorded so far, the latest first, and the shape that they lead to. -/
structure Draft where
  recorded : List RecordedStep
  shape : Shape
  deriving DecidableEq, Repr

namespace Draft

/-- The draft without steps. -/
def start (shape : Shape) : Draft :=
  ⟨[], shape⟩

/-- The steps of a draft in the order in which they are taken. -/
def steps (d : Draft) : List Step :=
  (d.recorded.map RecordedStep.step).reverse

/-- Adds a reshape to `target`. If the latest step is a reshape, the new one takes its place, and
both disappear if they lead back to the shape before them. -/
def reshape (d : Draft) (target : Shape) : Draft :=
  if d.shape = target then d
  else
    match d.recorded with
    | ⟨before, .reshape _⟩ :: rest =>
      if before = target then ⟨rest, target⟩
      else ⟨⟨before, .reshape target⟩ :: rest, target⟩
    | recorded => ⟨⟨d.shape, .reshape target⟩ :: recorded, target⟩

/-- Adds a permutation of the axes. -/
def permute (d : Draft) (axes : List Nat) : Outcome Draft :=
  if inOrder axes then .ok d
  else do
    let shape ← Outcome.inRange (d.shape.pick? axes)
    return ⟨⟨d.shape, .permute axes⟩ :: d.recorded, shape⟩

end Draft

end AxisNotation
