/-!
# Spans

A span is a half-open range of character positions in a pattern.
-/

namespace AxisNotation

/-- The characters from `start` up to, and not including, `stop`. -/
structure Span where
  start : Nat
  stop : Nat
  deriving DecidableEq, Repr, Inhabited

namespace Span

/-- The span of hand-built nodes, which have no place in a text. -/
def nowhere : Span :=
  ⟨0, 0⟩

/-- The span of `width` characters from a position on. -/
def ofWidth (start width : Nat) : Span :=
  ⟨start, start + width⟩

/-- The smallest span that covers both. -/
def join (a b : Span) : Span :=
  ⟨min a.start b.start, max a.stop b.stop⟩

/-- How many characters a span covers. -/
def length (s : Span) : Nat :=
  s.stop - s.start

/-- A span is empty when it ends where it starts. -/
def isEmpty (s : Span) : Bool :=
  s.start == s.stop

/-- The two ends with two dots between them. -/
def render (s : Span) : String :=
  toString s.start ++ ".." ++ toString s.stop

end Span

end AxisNotation
