import AxisNotation.Error
import AxisNotation.Kind
import AxisNotation.Pattern

/-!
# Valid patterns

Whether a pattern makes sense for a kind of operation does not depend on any shape. It is decided by
a list of rules in a fixed order; the first rule that is broken gives the error, and the error lists
all names that break it.
-/

namespace AxisNotation

/-- A rule as it applies to one pattern: the fault that it guards against, the names that are at
fault, and whether it is broken. -/
structure Rule where
  cause : AxisCause
  offenders : List String
  broken : Bool

namespace Rule

/-- The rule that none of the given names may occur. -/
def noNames (cause : AxisCause) (offenders : List String) : Rule :=
  ⟨cause, offenders, !offenders.isEmpty⟩

/-- A rule about the form of a pattern, which concerns no names. -/
def form (cause : AxisCause) (broken : Bool) : Rule :=
  ⟨cause, [], broken⟩

/-- The error for the first broken rule, if there is one. -/
def check (pattern : String) (rules : List Rule) : Except PatternError Unit :=
  match rules.find? Rule.broken with
  | some rule => .error (.ofNames pattern rule.cause rule.offenders)
  | none => .ok ()

end Rule

namespace Terms

/-- Whether a group at any depth has no members. -/
def hasEmptyGroup (ts : Terms) : Bool :=
  (Terms.groups ts).any fun g => g.1.isEmpty

/-- Whether a group at any depth has an ellipsis among its members. -/
def hasOpenGroup (ts : Terms) : Bool :=
  (Terms.groups ts).any fun g => Terms.isOpen g.1

/-- The names that occur more than once. -/
def repeatedNames (ts : Terms) : List String :=
  (Terms.names ts).filter fun n => 1 < (Terms.names ts).count n

/-- The names that do not occur among some other terms. -/
def namesOutside (ts others : Terms) : List String :=
  (Terms.names ts).filter fun n => n ∉ Terms.names others

end Terms

namespace Pattern

/-- All names are legal. -/
def nameRule (p : Pattern) : Rule :=
  .noNames .illegalNames ((p.input.names ++ p.output.names).filter fun n => !Name.isLegal n)

/-- A side has at most one ellipsis and no empty group, and the input has no ellipsis in a group. -/
def formRules (p : Pattern) (side : Side) : List Rule :=
  [.form (.severalEllipses side (p.side side).ellipses) (1 < (p.side side).ellipses),
    .form (.emptyGroup side) (p.side side).hasEmptyGroup,
    .form .groupedEllipsis (side = .input && (p.side side).hasOpenGroup)]

/-- The output has an ellipsis only if the input has one, and only reducing may drop it. -/
def ellipsisRules (p : Pattern) (kind : Kind) : List Rule :=
  [.form .ellipsisIntroduced (!p.input.hasEllipsis && p.output.hasEllipsis),
    .form .ellipsisDropped
      (kind ≠ .reducing && (p.input.hasEllipsis && !p.output.hasEllipsis))]

/-- Rearranging keeps the names, reducing adds none, and repeating drops none and adds only names
whose size is given. -/
def occurrenceRules (p : Pattern) (given : List String) : Kind → List Rule
  | .rearranging =>
    [.noNames .oneSided (p.input.namesOutside p.output ++ p.output.namesOutside p.input)]
  | .reducing => [.noNames .introduced (p.output.namesOutside p.input)]
  | .repeating =>
    [.noNames .dropped (p.input.namesOutside p.output),
      .noNames .unsized ((p.output.namesOutside p.input).filter fun n => n ∉ given)]

/-- No name occurs twice on a side. -/
def repetitionRule (p : Pattern) (side : Side) : Rule :=
  .noNames (.repeated side) (p.side side).repeatedNames

/-- All rules for a kind of operation in the order in which they are checked, where sizes are given
for some names. -/
def rules (p : Pattern) (kind : Kind) (given : List String) : List Rule :=
  p.nameRule :: p.formRules .input ++ p.formRules .output ++ p.ellipsisRules kind
    ++ p.occurrenceRules given kind ++ [p.repetitionRule .input, p.repetitionRule .output]

/-- Checks a pattern for a kind of operation, where sizes are given for some names. -/
def check (kind : Kind) (p : Pattern) (given : List String) : Except PatternError Unit :=
  Rule.check p.text (p.rules kind given)

/-- Checks that sizes are given only for names of the pattern. -/
def checkGiven (p : Pattern) (given : List String) : Except PatternError Unit :=
  Rule.check p.text [.noNames .foreignSizes (given.filter fun n => n ∉ p.names)]

end Pattern

end AxisNotation
