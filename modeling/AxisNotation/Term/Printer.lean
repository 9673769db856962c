import AxisNotation.Term
import AxisNotation.Token

/-!
# The text of a term

Terms are written with single spaces between them, and a group in parentheses around its members.
-/

namespace AxisNotation

mutual

/-- The text of a term. -/
def Term.render : Term → String
  | .name n _ => n
  | .group ms _ => "(" ++ " ".intercalate (Terms.texts ms) ++ ")"
  | .ellipsis _ => "..."
  | .unit _ => "1"

/-- The text of each of the terms. -/
def Terms.texts : Terms → List String
  | [] => []
  | t :: ts => t.render :: Terms.texts ts

end

mutual

/-- The tokens of a term, in the order of its text. -/
def Term.tokens : Term → List TokenKind
  | .name n _ => [.name n]
  | .group ms _ => .opening :: (Terms.tokens ms ++ [.closing])
  | .ellipsis _ => [.ellipsis]
  | .unit _ => [.unit]

/-- The tokens of a list of terms. -/
def Terms.tokens : Terms → List TokenKind
  | [] => []
  | t :: ts => t.tokens ++ Terms.tokens ts

end

namespace Terms

/-- The text of a list of terms. -/
def render (ts : Terms) : String :=
  " ".intercalate (Terms.texts ts)

theorem texts_eq_map (ts : Terms) : Terms.texts ts = ts.map Term.render := by
  induction ts with
  | nil => rfl
  | cons t ts ih => simp [Terms.texts, ih]

theorem tokens_eq_flatMap (ts : Terms) : Terms.tokens ts = ts.flatMap Term.tokens := by
  induction ts with
  | nil => rfl
  | cons t ts ih => simp [Terms.tokens, ih]

end Terms

end AxisNotation
