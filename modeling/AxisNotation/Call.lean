import AxisNotation.Plan

/-!
# Calls

What a plan asks of a tensor library: a sequence of calls, each of which makes a new tensor from
one tensor. `Call.outputShape` is the effect of a call on the shape.
-/

namespace AxisNotation

/-- A request to a tensor library. -/
inductive Call where
  | reshape (shape : Shape)
  | permute (axes : List Nat)
  | transpose
  | reduce (axes : List Nat) (reduction : Reduction) (keep : Bool)
  | expand (shape : Shape)
  deriving DecidableEq, Repr

namespace Call

/-- A call with its arguments. -/
def render : Call → String
  | reshape shape => "reshape" ++ shape.render
  | permute axes => "permute" ++ Shape.render axes
  | transpose => "transpose"
  | reduce axes reduction keep =>
    "reduce" ++ Shape.render axes ++ " " ++ reduction.word ++ " keep=" ++ toString keep
  | expand shape => "expand" ++ shape.render

/-- The shape after a call. Axes that the shape does not have are left out. -/
def outputShape (shape : Shape) : Call → Shape
  | reshape target => target
  | permute axes => axes.filterMap fun i => shape[i]?
  | transpose => shape.reverse
  | reduce axes _ keep => if keep then shape.flatten axes else shape.dropAxes axes
  | expand target => target

end Call

/-- The call that carries out a step; the identity needs none. -/
def Step.call? : Step → Option Call
  | .identity => none
  | .transpose => some .transpose
  | .permute axes => some (.permute axes)
  | .reshape shape => some (.reshape shape)

namespace Plan

/-- The calls that a rearrangement stands for. -/
def Rearrange.calls (p : Rearrange) : List Call :=
  p.steps.filterMap Step.call?

/-- The calls that a reduction stands for. -/
def Reduce.calls (p : Reduce) : List Call :=
  p.before.filterMap Step.call?
    ++ (if p.reduces then [.reduce p.axes p.reduction p.keep] else [])
    ++ p.after.filterMap Step.call?

/-- The calls that a repetition stands for. -/
def Repeat.calls (p : Repeat) : List Call :=
  p.before.filterMap Step.call? ++ (p.expanded.map Call.expand).toList
    ++ p.after.filterMap Step.call?

end Plan

end AxisNotation
