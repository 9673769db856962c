import AxisNotation.Name
import AxisNotation.Side
import AxisNotation.Term.Printer

/-!
# Patterns

A pattern has two sides and remembers what it was read from. Its own text is the source text, which
for a pattern that was put together from sides is the way it is displayed.
-/

namespace AxisNotation

/-- What a pattern was read from: its text, the number of tokens on each side of the arrow, and the
position of the arrow. -/
structure Source where
  text : String
  inputTokens : Nat
  outputTokens : Nat
  arrow : Nat
  deriving DecidableEq, Repr, Inhabited

/-- Two sides and the source that they were read from. -/
structure Pattern where
  input : Terms
  output : Terms
  source : Source
  deriving Repr, Inhabited

namespace Pattern

/-- A pattern as it is displayed: both sides with the arrow between them. -/
def display (input output : Terms) : String :=
  input.render ++ " -> " ++ output.render

/-- The pattern with the given sides and no other source than its display. -/
def ofSides (input output : Terms) : Pattern :=
  ⟨input, output, ⟨display input output, 0, 0, 0⟩⟩

/-- The display of a pattern. -/
def render (p : Pattern) : String :=
  display p.input p.output

/-- The text that the pattern was read from. -/
def text (p : Pattern) : String :=
  p.source.text

/-- The terms on a side. -/
def side (p : Pattern) : Side → Terms
  | .input => p.input
  | .output => p.output

/-- The axis names of both sides, in order and once each. -/
def names (p : Pattern) : List String :=
  Name.sorted (p.input.names ++ p.output.names)

/-- Two patterns are the same when their sides are; spans and sources do not matter. -/
def same (p q : Pattern) : Bool :=
  p.input.same q.input && p.output.same q.output

/-- Whether every term on both sides names one axis. -/
def isPlain (p : Pattern) : Bool :=
  (p.input ++ p.output).all fun t => t.name?.isSome

/-- Whether one of the sides has an ellipsis, at any depth. -/
def hasEllipsis (p : Pattern) : Bool :=
  p.input.hasEllipsis || p.output.hasEllipsis

/-- Two patterns are the same exactly when their sides are equal without spans. -/
theorem same_iff (p q : Pattern) :
    p.same q = true ↔ p.input.bare = q.input.bare ∧ p.output.bare = q.output.bare := by
  simp [same, Terms.same_iff]

end Pattern

end AxisNotation
