/-!
# Reductions

A reduction combines the elements along some axes into one.
-/

namespace AxisNotation

/-- A way of combining elements. -/
inductive Reduction where
  | sum
  | mean
  | max
  | min
  | prod
  deriving DecidableEq, Repr, Inhabited

namespace Reduction

/-- The name of a reduction. -/
def word : Reduction → String
  | sum => "sum"
  | mean => "mean"
  | max => "max"
  | min => "min"
  | prod => "prod"

/-- All reductions. -/
def all : List Reduction :=
  [sum, mean, max, min, prod]

/-- The reduction of the given name. -/
def ofWord? (s : String) : Option Reduction :=
  all.find? (·.word = s)

/-- The message for a name that no reduction has. -/
def unknownMessage (s : String) : String :=
  "unknown reduction '" ++ s ++ "', expected one of " ++ ", ".intercalate (all.map word)

/-- A reduction has no value on an empty axis when it starts from the first element. -/
def needsElement : Reduction → Bool
  | max => true
  | min => true
  | _ => false

/-- Each reduction is found under its name. -/
theorem ofWord?_word (r : Reduction) : ofWord? r.word = some r := by
  cases r <;> decide

end Reduction

end AxisNotation
