import AxisNotation.Axis
import AxisNotation.Plan
import AxisNotation.Shortcut
import AxisNotation.Step.Draft

/-!
# Planning a rearrangement

A pattern with a shortcut takes one step. Otherwise the input is split into its elementary axes,
these are brought into the order of the output, and the result is given the output shape.
-/

namespace AxisNotation.Plan

/-- The steps through the elementary axes, of which there may be none. -/
def generalSteps (p : Pattern) (shape : Shape) (r : Resolution) : Outcome (List Step) := do
  let input := p.input.axes r.covered.length
  let output := p.output.axes r.covered.length
  let sizes ← r.axisSizes p.text input
  let positions ← Axis.positions p.text input output
  let draft ← ((Draft.start shape).reshape sizes).permute positions
  return (draft.reshape r.outputShape).steps

/-- The steps that rearrange a tensor of the given shape. There is at least one. -/
def rearrangeSteps (p : Pattern) (shape : Shape) (r : Resolution) : Outcome (List Step) :=
  match Shortcut.ofPattern? p with
  | some shortcut => .ok [shortcut.step]
  | none => do
    let steps ← generalSteps p shape r
    return if steps.isEmpty then [.identity] else steps

/-- The plan to rearrange a tensor of the given shape. -/
def Rearrange.ofPattern (p : Pattern) (shape : Shape) (r : Resolution) : Outcome Rearrange := do
  return ⟨r, ← rearrangeSteps p shape r⟩

end AxisNotation.Plan
