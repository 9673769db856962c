import AxisNotation.Document
import AxisNotation.Error
import AxisNotation.Kind
import AxisNotation.Pattern

/-!
# Patterns as documents

The stored forms of spans, sides, stages, kinds, terms and patterns.
-/

namespace AxisNotation

open Document

/-- The stored form of a span. -/
def Span.toDocument (s : Span) : Document :=
  .record [("start", .ofNat s.start), ("end", .ofNat s.stop)]

/-- The span with the given stored form. -/
def Span.ofDocument? (d : Document) : Option Span := do
  let parts ← d.parts? ["start", "end"]
  return ⟨← part? parts "start" nat?, ← part? parts "end" nat?⟩

/-- The stored form of a side. -/
def Side.toDocument : Side → Document
  | input => .text "Input"
  | output => .text "Output"

/-- The side with the given stored form. -/
def Side.ofDocument? : Document → Option Side :=
  choice? [("Input", input), ("Output", output)]

/-- The stored form of a stage. -/
def Stage.toDocument : Stage → Document
  | parse => .text "Parse"
  | axis => .text "Axis"
  | shape => .text "Shape"

/-- The stage with the given stored form. -/
def Stage.ofDocument? : Document → Option Stage :=
  choice? [("Parse", parse), ("Axis", axis), ("Shape", shape)]

/-- The stored form of a kind of operation. -/
def Kind.toDocument : Kind → Document
  | rearranging => .text "Rearrange"
  | reducing => .text "Reduce"
  | repeating => .text "Repeat"

/-- The kind of operation with the given stored form. -/
def Kind.ofDocument? : Document → Option Kind :=
  choice? [("Rearrange", rearranging), ("Reduce", reducing), ("Repeat", repeating)]

mutual

/-- The stored form of a term. -/
def Term.toDocument : Term → Document
  | .name n s => .ofCase "Simple" (.record [("name", .text n), ("span", s.toDocument)])
  | .group ms s =>
    .ofCase "Composite" (.record [("axes", .list (Terms.toDocuments ms)), ("span", s.toDocument)])
  | .ellipsis s => .ofCase "Ellipsis" (.record [("span", s.toDocument)])
  | .unit s => .ofCase "Singleton" (.record [("span", s.toDocument)])

/-- The stored forms of a list of terms. -/
def Terms.toDocuments : Terms → List Document
  | [] => []
  | t :: ts => t.toDocument :: Terms.toDocuments ts

end

/-- The stored form of a list of terms. -/
def Terms.toDocument (ts : Terms) : Document :=
  .list (Terms.toDocuments ts)

mutual

/-- The term with the given stored form. -/
def Term.ofDocument? : Document → Option Term
  | .record [("Simple", .record parts)] => do
    return .name (← part? parts "name" text?) (← part? parts "span" Span.ofDocument?)
  | .record [("Composite", .record parts)] => do
    return .group (← Terms.ofParts? parts) (← part? parts "span" Span.ofDocument?)
  | .record [("Ellipsis", .record parts)] => do
    return .ellipsis (← part? parts "span" Span.ofDocument?)
  | .record [("Singleton", .record parts)] => do
    return .unit (← part? parts "span" Span.ofDocument?)
  | _ => none

/-- The members of a group with the given parts. -/
def Terms.ofParts? : List (String × Document) → Option Terms
  | [] => none
  | (name, part) :: parts =>
    if name = "axes" then
      match part with
      | .list items => Terms.ofDocuments? items
      | _ => none
    else Terms.ofParts? parts

/-- The terms with the given stored forms. -/
def Terms.ofDocuments? : List Document → Option Terms
  | [] => some []
  | d :: ds => do
    return (← Term.ofDocument? d) :: (← Terms.ofDocuments? ds)

end

/-- The terms with the given stored form. -/
def Terms.ofDocument? (d : Document) : Option Terms := do
  Terms.ofDocuments? (← d.list?)

/-- The stored form of a source. -/
def Source.toDocument (s : Source) : Document :=
  .record [("original", .text s.text), ("input_tokens", .ofNat s.inputTokens),
    ("output_tokens", .ofNat s.outputTokens), ("arrow_position", .ofNat s.arrow)]

/-- The source with the given stored form. -/
def Source.ofDocument? (d : Document) : Option Source := do
  let parts ← d.parts? ["original", "input_tokens", "output_tokens", "arrow_position"]
  return {
    text := ← part? parts "original" text?
    inputTokens := ← part? parts "input_tokens" nat?
    outputTokens := ← part? parts "output_tokens" nat?
    arrow := ← part? parts "arrow_position" nat? }

/-- The stored form of a pattern. -/
def Pattern.toDocument (p : Pattern) : Document :=
  .record [("input", p.input.toDocument), ("output", p.output.toDocument),
    ("metadata", p.source.toDocument)]

/-- The pattern with the given stored form. -/
def Pattern.ofDocument? (d : Document) : Option Pattern := do
  let parts ← d.parts? ["input", "output", "metadata"]
  return {
    input := ← part? parts "input" Terms.ofDocument?
    output := ← part? parts "output" Terms.ofDocument?
    source := ← part? parts "metadata" Source.ofDocument? }

end AxisNotation
