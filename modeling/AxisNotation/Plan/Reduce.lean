import AxisNotation.Axis
import AxisNotation.Pattern
import AxisNotation.Plan
import AxisNotation.Step.Draft

/-!
# Planning a reduction

The elementary axes of the output come first, in the order of the output, and those that the output
does not have come last, in the order of the input. The last ones are reduced.
-/

namespace AxisNotation.Plan

/-- The plan to reduce a tensor of the given shape to the axes of the output. -/
def Reduce.ofPattern (p : Pattern) (shape : Shape) (r : Resolution) (reduction : Reduction)
    (keep : Bool) : Outcome Reduce := do
  let input := p.input.axes r.covered.length
  let kept := p.output.axes r.covered.length
  let reduced := input.filter fun a => a ∉ kept
  let sizes ← r.axisSizes p.text input
  let positions ← Axis.positions p.text input (kept ++ reduced)
  let draft ← ((Draft.start shape).reshape sizes).permute positions
  let axes := List.range' kept.length reduced.length
  let collapsed ←
    if axes.isEmpty then .ok draft.shape
    else if keep then Outcome.inRange (draft.shape.collapse? axes)
    else .ok (draft.shape.take kept.length)
  let outputShape := r.outputShape ++ (if keep then axes.map fun _ => 1 else [])
  return {
    resolution := r
    before := draft.steps
    axes
    reduction
    keep
    after := ((Draft.start collapsed).reshape outputShape).steps
    outputShape }

end AxisNotation.Plan
