import AxisNotation.Shape
import Std.Data.ExtTreeMap

/-!
# Resolutions

What a pattern means on a given shape: the size of each axis name, the dimensions that the ellipsis
covers, and the shape of the output.
-/

namespace AxisNotation

/-- Sizes by axis name. -/
abbrev Sizes := Std.ExtTreeMap String Nat

/-- Explicit sizes as a caller lists them; a name may be listed more than once. -/
abbrev SizeList := List (String × Nat)

/-- The names in a list of explicit sizes. -/
def SizeList.names (explicit : SizeList) : List String :=
  explicit.map Prod.fst

/-- The sizes of a pattern's axes on a shape. -/
structure Resolution where
  sizes : Sizes
  /-- The dimensions that the ellipsis covers, in order. -/
  covered : Shape
  /-- The size of each term of the output, with the covered dimensions in place of an ellipsis. -/
  outputShape : Shape
  deriving DecidableEq

end AxisNotation
