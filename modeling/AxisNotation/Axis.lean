import AxisNotation.Error
import AxisNotation.Resolution
import AxisNotation.Term

/-!
# Elementary axes

Under the groups of a side lie its elementary axes: one for each name, and one for each dimension
that the ellipsis covers. Unit axes have none. Both sides of a pattern are lists of the same
elementary axes in different groupings, and an operation is planned in terms of them.
-/

namespace AxisNotation

/-- An axis that is not made of other axes. -/
inductive Axis where
  | named (name : String)
  /-- A dimension covered by the ellipsis, counted from zero. -/
  | covered (index : Nat)
  deriving DecidableEq, Repr

/-- The way an axis is referred to in a message. -/
def Axis.label : Axis → String
  | named n => n
  | covered _ => "..."

mutual

/-- The elementary axes of a term, where an ellipsis covers `width` dimensions. -/
def Term.axes (width : Nat) : Term → List Axis
  | .name n _ => [.named n]
  | .group ms _ => Terms.axes width ms
  | .ellipsis _ => (List.range width).map .covered
  | .unit _ => []

/-- The elementary axes of a list of terms. -/
def Terms.axes (width : Nat) : Terms → List Axis
  | [] => []
  | t :: ts => t.axes width ++ Terms.axes width ts

end

theorem Terms.axes_eq_flatMap (width : Nat) (ts : Terms) :
    Terms.axes width ts = ts.flatMap (Term.axes width) := by
  induction ts with
  | nil => rfl
  | cons t ts ih => simp [Terms.axes, ih]

namespace Resolution

/-- The size of an elementary axis. -/
def axisSize (pattern : String) (r : Resolution) : Axis → Outcome Nat
  | .named n =>
    .orReject r.sizes[n]? ((PatternError.ofShape pattern (.unresolved n)).withAxes [n])
  | .covered i => .orReject r.covered[i]? (.ofShape pattern .ellipsisPosition)

/-- The sizes of some elementary axes. -/
def axisSizes (pattern : String) (r : Resolution) (axes : List Axis) : Outcome Shape :=
  axes.mapM (r.axisSize pattern)

end Resolution

namespace Axis

/-- The position of each of `targets` among `axes`. -/
def positions (pattern : String) (axes targets : List Axis) : Outcome (List Nat) :=
  targets.mapM fun a => .orReject (axes.idxOf? a) (.ofNames pattern .oneSided [a.label])

end Axis

end AxisNotation
