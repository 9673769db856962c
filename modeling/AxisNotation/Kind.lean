/-!
# Kinds of operation

What a pattern is used for decides which axes its two sides may have.
-/

namespace AxisNotation

/-- What is done with a tensor. Rearranging keeps every axis, reducing drops axes, and repeating
adds axes of a given size. -/
inductive Kind where
  | rearranging
  | reducing
  | repeating
  deriving DecidableEq, Repr, Inhabited

/-- The word for a kind of operation. -/
def Kind.word : Kind → String
  | rearranging => "rearrange"
  | reducing => "reduce"
  | repeating => "repeat"

end AxisNotation
