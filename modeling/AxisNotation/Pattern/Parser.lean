import AxisNotation.Pattern
import AxisNotation.Token.Lexer

/-!
# Reading patterns

A pattern is a side, an arrow and a side. The tokens of a side are read from left to right; the
groups that are still open are kept on a stack, the innermost first, together with the terms that
stand before them.
-/

namespace AxisNotation

/-- A group that has been opened and not yet closed: the span of its parenthesis, and the terms
that stand before it inside the enclosing group. -/
structure OpenGroup where
  opening : Span
  before : Terms

/-- The terms of a side, given the groups that are open and the terms read in the innermost. -/
def Terms.readFrom (pattern : String) (groups : List OpenGroup) (terms : Terms) :
    List Token → Except PatternError Terms
  | [] =>
    match groups with
    | [] => .ok terms
    | g :: _ => .error (.parse pattern .unclosedOpening g.opening)
  | ⟨kind, span⟩ :: tokens =>
    match kind with
    | .name n => readFrom pattern groups (terms ++ [.name n span]) tokens
    | .unit => readFrom pattern groups (terms ++ [.unit span]) tokens
    | .ellipsis => readFrom pattern groups (terms ++ [.ellipsis span]) tokens
    | .opening => readFrom pattern (⟨span, terms⟩ :: groups) [] tokens
    | .closing =>
      match groups with
      | [] => .error (.parse pattern .unmatchedClosing span)
      | g :: gs =>
        readFrom pattern gs (g.before ++ [.group terms (g.opening.join span)]) tokens
    | .arrow => .error (.parse pattern .secondArrow span)

/-- The terms of a side. -/
def Terms.read (pattern : String) (tokens : List Token) : Except PatternError Terms :=
  readFrom pattern [] [] tokens

namespace Pattern

/-- Reads a pattern from its tokens, which must have exactly one arrow. -/
def ofTokens (text : String) (tokens : List Token) : Except PatternError Pattern :=
  let before := tokens.takeWhile (·.kind ≠ .arrow)
  match tokens.dropWhile (·.kind ≠ .arrow) with
  | [] => .error (.parse text .noArrow ⟨0, text.length⟩)
  | arrow :: after =>
    match after.find? (·.kind = .arrow) with
    | some second => .error (.parse text .secondArrow second.span)
    | none => do
      let input ← Terms.read text before
      let output ← Terms.read text after
      return ⟨input, output, ⟨text, before.length, after.length, arrow.span.start⟩⟩

/-- Reads a pattern from its text. -/
def parse (text : String) : Except PatternError Pattern := do
  ofTokens text (← Token.scan text)

end Pattern

end AxisNotation
