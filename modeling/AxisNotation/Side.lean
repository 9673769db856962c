/-!
# Sides

A pattern has an input side, left of its arrow, and an output side, right of it.
-/

namespace AxisNotation

/-- One of the two sides of a pattern. -/
inductive Side where
  | input
  | output
  deriving DecidableEq, Repr, Inhabited

/-- The word for a side in messages. -/
def Side.word : Side → String
  | input => "input"
  | output => "output"

end AxisNotation
