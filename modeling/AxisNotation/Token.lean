import AxisNotation.Span

/-!
# Tokens

The words of the notation, and a word together with the place where it stands.
-/

namespace AxisNotation

/-- A word of the notation: an axis name, the unit axis, the ellipsis, a parenthesis or the arrow
between the two sides. -/
inductive TokenKind where
  | name (text : String)
  | unit
  | ellipsis
  | opening
  | closing
  | arrow
  deriving DecidableEq, Repr, Inhabited

namespace TokenKind

/-- The characters of a word. -/
def text : TokenKind → String
  | name s => s
  | unit => "1"
  | ellipsis => "..."
  | opening => "("
  | closing => ")"
  | arrow => "->"

end TokenKind

/-- A word and the span it takes in its pattern. -/
structure Token where
  kind : TokenKind
  span : Span
  deriving DecidableEq, Repr, Inhabited

end AxisNotation
