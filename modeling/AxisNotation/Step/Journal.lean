import AxisNotation.Step.Draft

/-!
# Journals

A journal is a draft as it lies in memory: one array for its steps, and another for the shape before
each of them, both in the order in which the steps are taken. What is requested is written at the
ends of the arrays, or takes back what stands there.
-/

namespace AxisNotation

/-- Steps, the shapes that they are applied to, and the shape that they lead to. -/
structure Journal where
  steps : Array Step
  befores : Array Shape
  shape : Shape
  deriving DecidableEq, Repr

namespace Journal

/-- What can be added to a journal. -/
inductive Request where
  | reshape (target : Shape)
  | permute (axes : List Nat)
  deriving DecidableEq, Repr

/-- The step that does what is requested. -/
def Request.step : Request → Step
  | reshape target => .reshape target
  | permute axes => .permute axes

/-- The journal without steps. -/
def start (shape : Shape) : Journal :=
  ⟨#[], #[], shape⟩

/-- Writes a step at the ends of the arrays. It leads from the shape of the journal to another. -/
def push (j : Journal) (step : Step) (shape : Shape) : Journal :=
  ⟨j.steps.push step, j.befores.push j.shape, shape⟩

/-- Adds a reshape to `target`. If the last step is a reshape it is overwritten, or taken back
together with its shape when that is the target. -/
def reshape (j : Journal) (target : Shape) : Journal :=
  if j.shape = target then j
  else
    match j.steps.back? with
    | some (.reshape _) =>
      if j.befores.back? = some target then ⟨j.steps.pop, j.befores.pop, target⟩
      else ⟨j.steps.setIfInBounds (j.steps.size - 1) (.reshape target), j.befores, target⟩
    | _ => j.push (.reshape target) target

/-- Adds a permutation of the axes. -/
def permute (j : Journal) (axes : List Nat) : Outcome Journal :=
  if inOrder axes then .ok j
  else do
    let shape ← Outcome.inRange (j.shape.pick? axes)
    return j.push (.permute axes) shape

/-- Adds what is requested. -/
def add (j : Journal) : Request → Outcome Journal
  | .reshape target => .ok (j.reshape target)
  | .permute axes => j.permute axes

/-- Adds some requests one after another. -/
def addAll (j : Journal) (requests : List Request) : Outcome Journal :=
  requests.foldlM add j

end Journal

end AxisNotation
