import AxisNotation.Span

/-!
# Terms

A side of a pattern is a list of terms. A term names one axis, groups the terms in parentheses
into one axis, stands for a run of axes (the ellipsis), or is an axis of size one. Each term carries
the span of the text it was read from; `Term.bare` forgets it.

Functions on a term and on a list of terms are defined together, by recursion on the nesting.
-/

namespace AxisNotation

/-- A term of a pattern. -/
inductive Term where
  | name (name : String) (span : Span)
  | group (members : List Term) (span : Span)
  | ellipsis (span : Span)
  | unit (span : Span)
  deriving Repr, Inhabited

/-- The terms of a side or of a group. -/
abbrev Terms := List Term

namespace Term

/-- The place of a term in its pattern. -/
def span : Term → Span
  | name _ s => s
  | group _ s => s
  | ellipsis s => s
  | unit s => s

/-- The name of a term that names one axis. -/
def name? : Term → Option String
  | name n _ => some n
  | _ => none

/-- The terms inside a group. -/
def members? : Term → Option Terms
  | group ms _ => some ms
  | _ => none

/-- Only an ellipsis is one; a group that contains one is not. -/
def isEllipsis : Term → Bool
  | ellipsis _ => true
  | _ => false

end Term

mutual

/-- The axis names of a term from left to right, those inside groups included. -/
def Term.names : Term → List String
  | .name n _ => [n]
  | .group ms _ => Terms.names ms
  | .ellipsis _ => []
  | .unit _ => []

/-- The axis names of a list of terms. -/
def Terms.names : Terms → List String
  | [] => []
  | t :: ts => t.names ++ Terms.names ts

end

mutual

/-- How many ellipses a term has, at any depth. -/
def Term.ellipses : Term → Nat
  | .name _ _ => 0
  | .group ms _ => Terms.ellipses ms
  | .ellipsis _ => 1
  | .unit _ => 0

/-- How many ellipses a list of terms has, at any depth. -/
def Terms.ellipses : Terms → Nat
  | [] => 0
  | t :: ts => t.ellipses + Terms.ellipses ts

end

mutual

/-- The groups of a term, each after the groups inside it. -/
def Term.groups : Term → List (Terms × Span)
  | .name _ _ => []
  | .group ms s => Terms.groups ms ++ [(ms, s)]
  | .ellipsis _ => []
  | .unit _ => []

/-- The groups of a list of terms, from left to right. -/
def Terms.groups : Terms → List (Terms × Span)
  | [] => []
  | t :: ts => t.groups ++ Terms.groups ts

end

mutual

/-- The term as if it had been built by hand: no node has a place in a text. -/
def Term.bare : Term → Term
  | .name n _ => .name n .nowhere
  | .group ms _ => .group (Terms.bare ms) .nowhere
  | .ellipsis _ => .ellipsis .nowhere
  | .unit _ => .unit .nowhere

/-- The terms without their places. -/
def Terms.bare : Terms → Terms
  | [] => []
  | t :: ts => t.bare :: Terms.bare ts

end

mutual

/-- Two terms are the same when they differ at most in their spans. -/
def Term.same : Term → Term → Bool
  | .name a _, .name b _ => a == b
  | .group as _, .group bs _ => Terms.same as bs
  | .ellipsis _, .ellipsis _ => true
  | .unit _, .unit _ => true
  | _, _ => false

/-- Two lists of terms are the same when their terms are, one by one. -/
def Terms.same : Terms → Terms → Bool
  | [], [] => true
  | a :: as, b :: bs => a.same b && Terms.same as bs
  | _, _ => false

end

/-- Whether a term is or contains an ellipsis. -/
def Term.hasEllipsis (t : Term) : Bool :=
  0 < t.ellipses

namespace Terms

/-- Whether the terms have an ellipsis at any depth. -/
def hasEllipsis (ts : Terms) : Bool :=
  0 < Terms.ellipses ts

/-- The names of a list of terms that all name one axis each. -/
def plainNames? (ts : Terms) : Option (List String) :=
  ts.mapM Term.name?

/-- A list of terms is open when one of the terms is an ellipsis; groups are not looked into. An
open side takes any number of dimensions from `dimensions` on. -/
def isOpen (ts : Terms) : Bool :=
  ts.any Term.isEllipsis

/-- How many dimensions the terms take apart from their ellipses. -/
def dimensions (ts : Terms) : Nat :=
  ts.countP fun t => !t.isEllipsis

theorem names_eq_flatMap (ts : Terms) : Terms.names ts = ts.flatMap Term.names := by
  induction ts with
  | nil => rfl
  | cons t ts ih => simp [Terms.names, ih]

theorem groups_eq_flatMap (ts : Terms) : Terms.groups ts = ts.flatMap Term.groups := by
  induction ts with
  | nil => rfl
  | cons t ts ih => simp [Terms.groups, ih]

theorem bare_eq_map (ts : Terms) : Terms.bare ts = ts.map Term.bare := by
  induction ts with
  | nil => rfl
  | cons t ts ih => simp [Terms.bare, ih]

end Terms

mutual

/-- Two terms are the same exactly when they are equal without their spans. -/
theorem Term.same_iff (a b : Term) : a.same b = true ↔ a.bare = b.bare := by
  cases a <;> cases b <;> simp [Term.same, Term.bare]
  exact Terms.same_iff _ _

/-- Two lists of terms are the same exactly when they are equal without their spans. -/
theorem Terms.same_iff (as bs : Terms) :
    Terms.same as bs = true ↔ Terms.bare as = Terms.bare bs := by
  cases as <;> cases bs <;> simp [Terms.same, Terms.bare]
  exact and_congr (Term.same_iff _ _) (Terms.same_iff _ _)

end

end AxisNotation
