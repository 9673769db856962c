import AxisNotation.Reduction
import AxisNotation.Resolution
import AxisNotation.Step

/-!
# Plans

What has to be done with a tensor, in terms that do not depend on its elements. There is one form of
plan for each kind of operation; each keeps the resolution that it was made from.
-/

namespace AxisNotation.Plan

/-- A rearrangement is a list of steps. -/
structure Rearrange where
  resolution : Resolution
  steps : List Step
  deriving DecidableEq

/-- A reduction brings the axes that stay to the front, reduces the others, and shapes the
result. -/
structure Reduce where
  resolution : Resolution
  before : List Step
  /-- The axes to reduce; nothing is reduced when there are none. -/
  axes : List Nat
  reduction : Reduction
  /-- Whether a reduced axis stays as an axis of size one. -/
  keep : Bool
  after : List Step
  outputShape : Shape
  deriving DecidableEq

/-- A repetition orders the axes as in the output with an axis of size one in place of each new
axis, expands those, and shapes the result. -/
structure Repeat where
  resolution : Resolution
  before : List Step
  /-- The shape to expand to; nothing is expanded when no axis is new. -/
  expanded : Option Shape
  after : List Step
  deriving DecidableEq

/-- The shape of the result of a rearrangement. -/
def Rearrange.outputShape (p : Rearrange) : Shape :=
  p.resolution.outputShape

/-- Whether a rearrangement is a single step other than a reshape. -/
def Rearrange.isShort (p : Rearrange) : Bool :=
  match p.steps with
  | [.reshape _] => false
  | [_] => true
  | _ => false

/-- Whether anything is reduced. -/
def Reduce.reduces (p : Reduce) : Bool :=
  !p.axes.isEmpty

/-- The shape of the result of a repetition. -/
def Repeat.outputShape (p : Repeat) : Shape :=
  p.resolution.outputShape

end AxisNotation.Plan
