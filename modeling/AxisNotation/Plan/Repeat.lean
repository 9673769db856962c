import AxisNotation.Axis
import AxisNotation.Pattern
import AxisNotation.Plan
import AxisNotation.Step.Draft

/-!
# Planning a repetition

The elementary axes that the input has are brought into the order of the output, and each new axis
gets a slot of size one at its place. Expanding the slots repeats the elements.
-/

namespace AxisNotation.Plan

/-- The plan to repeat a tensor of the given shape along the new axes of the output. -/
def Repeat.ofPattern (p : Pattern) (shape : Shape) (r : Resolution) : Outcome Repeat := do
  let input := p.input.axes r.covered.length
  let output := p.output.axes r.covered.length
  let carried := output.filter fun a => a ∈ input
  let full ← r.axisSizes p.text output
  let slotted := List.zipWith (fun a size => if a ∈ input then size else 1) output full
  let sizes ← r.axisSizes p.text input
  let positions ← Axis.positions p.text input carried
  let draft ← ((Draft.start shape).reshape sizes).permute positions
  let slots := draft.reshape slotted
  let isNew := carried.length ≠ output.length
  let expanded := if isNew then full else slots.shape
  return {
    resolution := r
    before := slots.steps
    expanded := if isNew then some full else none
    after := ((Draft.start expanded).reshape r.outputShape).steps }

end AxisNotation.Plan
