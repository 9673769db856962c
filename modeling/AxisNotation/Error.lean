import AxisNotation.Name
import AxisNotation.Shape
import AxisNotation.Side
import AxisNotation.Span

/-!
# Errors

What can be wrong with a pattern, and the messages that say so. An error belongs to one of three
stages: the text of the pattern (`SyntaxCause`), its axes (`AxisCause`), or its sizes on a given
shape (`ShapeCause`). A cause determines the bare text of its message; `PatternError` adds the
pattern and the place, the names or the shapes concerned.
-/

namespace AxisNotation

/-- What is wrong with the text of a pattern. -/
inductive SyntaxCause where
  /-- A run of dots that is not an ellipsis. -/
  | dots (count : Nat)
  /-- A hyphen that does not start an arrow. -/
  | hyphen
  /-- A word that starts with a digit and is not the unit axis. -/
  | literal (word : String)
  /-- A character that starts no word. -/
  | character (c : Char)
  | noArrow
  | secondArrow
  | unmatchedClosing
  | unclosedOpening
  /-- A cause given by its text alone. -/
  | stated (text : String)
  deriving DecidableEq, Repr

/-- What is wrong with the axes of a pattern. -/
inductive AxisCause where
  | illegalNames
  | severalEllipses (side : Side) (count : Nat)
  | emptyGroup (side : Side)
  | groupedEllipsis
  | ellipsisIntroduced
  | ellipsisDropped
  | oneSided
  | introduced
  | dropped
  | unsized
  | repeated (side : Side)
  /-- Explicit sizes whose names the pattern does not have. -/
  | foreignSizes
  /-- A cause given by its text alone. -/
  | stated (text : String)
  deriving DecidableEq, Repr

/-- What is wrong with a pattern's sizes on a shape. Groups appear as they are displayed. -/
inductive ShapeCause where
  | zeroSize (name : String)
  | conflictingSizes (name : String) (first second : Nat)
  | sizeMismatch (name : String) (given actual : Nat)
  | reboundAxis (name : String) (bound dimension : Nat)
  | rank (orMore : Bool) (expected actual : Nat)
  | unitDimension (position dimension : Nat)
  | productOverflow
  | groupSize (group : String) (size dimension : Nat)
  | indivisible (dimension : Nat) (group : String) (divisor : Nat)
  | undetermined (count : Nat) (group : String)
  | unresolved (name : String)
  | ellipsisPosition
  | elementCount (before after : Nat)
  /-- A cause given by its text alone. -/
  | stated (text : String)
  deriving DecidableEq, Repr

namespace SyntaxCause

/-- The bare text of a syntax error. -/
def text : SyntaxCause → String
  | dots n => "expected '...', found " ++ toString n ++ " dot(s)"
  | hyphen => "expected '->' after '-'"
  | literal w => "invalid token '" ++ w ++ "', only the literal '1' may start with a digit"
  | character c => "invalid character '" ++ c.toString ++ "'"
  | noArrow => "missing '->'"
  | secondArrow => "pattern must contain exactly one '->'"
  | unmatchedClosing => "unmatched ')'"
  | unclosedOpening => "unclosed '('"
  | stated s => s

end SyntaxCause

namespace AxisCause

/-- The bare text of an axis error. -/
def text : AxisCause → String
  | illegalNames => "invalid axis names"
  | severalEllipses side n =>
    side.word ++ " side has " ++ toString n ++ " ellipses, at most one is allowed"
  | emptyGroup side => "empty group '()' on " ++ side.word ++ " side"
  | groupedEllipsis => "ellipsis inside a group is not allowed on the input side"
  | ellipsisIntroduced => "ellipsis on the output side requires one on the input side"
  | ellipsisDropped => "ellipsis on the input side must also appear on the output side"
  | oneSided => "axes appear only on one side"
  | introduced => "reduce cannot introduce axes absent from the input"
  | dropped => "repeat cannot drop input axes"
  | unsized => "new axes in repeat require an explicit size"
  | repeated side => "duplicate axes on " ++ side.word ++ " side"
  | foreignSizes => "explicit sizes given for axes not in the pattern"
  | stated s => s

end AxisCause

namespace ShapeCause

/-- The bare text of a shape error. -/
def text : ShapeCause → String
  | zeroSize n => "explicit size of '" ++ n ++ "' must be positive"
  | conflictingSizes n a b =>
    "conflicting explicit sizes for '" ++ n ++ "': " ++ toString a ++ " and " ++ toString b
  | sizeMismatch n given actual =>
    "explicit size " ++ toString given ++ " for '" ++ n ++ "' conflicts with size "
      ++ toString actual ++ " from the input shape"
  | reboundAxis n bound d =>
    "axis '" ++ n ++ "' bound to both " ++ toString bound ++ " and " ++ toString d
  | rank orMore expected actual =>
    "input pattern expects " ++ (if orMore then "at least " else "") ++ toString expected
      ++ " dimensions, tensor has " ++ toString actual
  | unitDimension i d =>
    "singleton at input position " ++ toString i ++ " matched dimension of size " ++ toString d
  | productOverflow => "dimension product overflows usize"
  | groupSize g k d =>
    "group " ++ g ++ " has size " ++ toString k ++ " but the input dimension is " ++ toString d
  | indivisible d g k =>
    "dimension " ++ toString d ++ " of group " ++ g ++ " is not divisible by " ++ toString k
  | undetermined n g =>
    "cannot infer sizes of " ++ toString n ++ " axes in group " ++ g ++ ", provide all but one"
  | unresolved n => "axis '" ++ n ++ "' has no resolved size"
  | ellipsisPosition => "ellipsis position out of range"
  | elementCount a b =>
    "rearrange must preserve element count (" ++ toString a ++ " vs " ++ toString b ++ ")"
  | stated s => s

end ShapeCause

/-- The stage at which a pattern is found to be wrong. -/
inductive Stage where
  | parse
  | axis
  | shape
  deriving DecidableEq, Repr, Inhabited

/-- A fault of a pattern: its cause, the pattern's text, and where or on what it was found. -/
inductive PatternError where
  | parse (pattern : String) (cause : SyntaxCause) (span : Span)
  | axis (pattern : String) (cause : AxisCause) (axes : List String)
  | shape (pattern : String) (cause : ShapeCause) (axes : List String)
      (expected actual : Option Shape)
  deriving DecidableEq, Repr

namespace PatternError

/-- An axis error about a set of names, which it lists in order and once each. -/
def ofNames (pattern : String) (cause : AxisCause) (names : List String) : PatternError :=
  .axis pattern cause (Name.sorted names)

/-- A shape error that so far concerns no names and no shapes. -/
def ofShape (pattern : String) (cause : ShapeCause) : PatternError :=
  .shape pattern cause [] none none

/-- A shape error about some names, in the given order. -/
def withAxes (names : List String) : PatternError → PatternError
  | .shape p c axes expected actual => .shape p c (axes ++ names) expected actual
  | e => e

/-- A shape error with the expected and the actual shape. -/
def withShapes (expected actual : Shape) : PatternError → PatternError
  | .shape p c axes _ _ => .shape p c axes (some expected) (some actual)
  | e => e

/-- A shape error with the actual shape alone. -/
def withActual (actual : Shape) : PatternError → PatternError
  | .shape p c axes expected _ => .shape p c axes expected (some actual)
  | e => e

/-- The stage of an error. -/
def stage : PatternError → Stage
  | .parse .. => .parse
  | .axis .. => .axis
  | .shape .. => .shape

/-- The pattern that is wrong. -/
def pattern : PatternError → String
  | .parse p .. => p
  | .axis p .. => p
  | .shape p .. => p

/-- The bare text of the message. -/
def text : PatternError → String
  | .parse _ c _ => c.text
  | .axis _ c _ => c.text
  | .shape _ c .. => c.text

/-- The names that an error concerns; a parse error concerns none. -/
def axes : PatternError → List String
  | .parse .. => []
  | .axis _ _ names => names
  | .shape _ _ names _ _ => names

/-- Names in braces, separated by commas. -/
def braced (names : List String) : String :=
  "\x7b" ++ ", ".intercalate names ++ "\x7d"

/-- The comparison of shapes that ends a message. -/
def comparison : Option Shape → Option Shape → String
  | some e, some a => " (expected " ++ e.render ++ ", got " ++ a.render ++ ")"
  | none, some a => " (got " ++ a.render ++ ")"
  | some e, none => " (expected " ++ e.render ++ ")"
  | none, none => ""

/-- The full message of an error. -/
def message : PatternError → String
  | .parse p c span => "parse error in '" ++ p ++ "' at " ++ span.render ++ ": " ++ c.text
  | .axis p c names =>
    "axis error in '" ++ p ++ "': " ++ c.text
      ++ (if names.isEmpty then "" else " " ++ braced names)
  | .shape p c _ expected actual =>
    "shape error in '" ++ p ++ "': " ++ c.text ++ comparison expected actual

end PatternError

/-- Why a computation on a pattern has no result. -/
inductive Failure where
  /-- The pattern is at fault. -/
  | rejected (error : PatternError)
  /-- A position outside a shape was asked for; validated patterns never lead here. -/
  | outOfRange
  deriving DecidableEq, Repr

/-- The result of a computation on a pattern. -/
abbrev Outcome := Except Failure

namespace Outcome

/-- The outcome that rejects the pattern. -/
def reject {α : Type} (error : PatternError) : Outcome α :=
  .error (.rejected error)

/-- A computation whose only failures are faults of the pattern. -/
def ofPattern {α : Type} : Except PatternError α → Outcome α
  | .ok a => .ok a
  | .error e => .error (.rejected e)

/-- The value if present, and a fault of the pattern if not. -/
def orReject {α : Type} (value : Option α) (error : PatternError) : Outcome α :=
  match value with
  | some a => .ok a
  | none => .error (.rejected error)

/-- The value if present, and a position out of range if not. -/
def inRange {α : Type} : Option α → Outcome α
  | some a => .ok a
  | none => .error .outOfRange

end Outcome

end AxisNotation
