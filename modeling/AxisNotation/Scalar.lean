/-!
# Scalars

What reductions need of the elements of a tensor. No law is asked for: the elements may be
floating-point numbers, whose addition is not associative and whose order is not total.
-/

namespace AxisNotation

/-- A type of elements that can be added, multiplied, divided and compared. -/
class Scalar (α : Type) where
  zero : α
  one : α
  add : α → α → α
  mul : α → α → α
  div : α → α → α
  less : α → α → Bool
  /-- The element nearest to a count. -/
  ofCount : Nat → α

/-- Single precision. -/
instance : Scalar Float32 where
  zero := 0
  one := 1
  add a b := a + b
  mul a b := a * b
  div a b := a / b
  less a b := decide (a < b)
  ofCount := Float32.ofNat

/-- Double precision. -/
instance : Scalar Float where
  zero := 0
  one := 1
  add a b := a + b
  mul a b := a * b
  div a b := a / b
  less a b := decide (a < b)
  ofCount := Float.ofNat

end AxisNotation
