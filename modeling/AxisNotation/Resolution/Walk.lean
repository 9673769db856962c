import AxisNotation.Resolution.Solver

/-!
# Finding the sizes of axes, access by access

The input terms are matched along the shape while a position counts the dimensions that are matched
already. A dimension is looked up at the position, a run is cut out between two positions, and sizes
are subtracted and divided. Where such an operation has no result the walk ends in a trap. The names
of a group are gone through one by one, and each time a size is looked up it is compared with the
given one.
-/

namespace AxisNotation.Resolution

/-- An operation on machine integers or arrays that has no result. -/
inductive Trap where
  | index
  | slice
  | underflow
  | division
  deriving DecidableEq, Repr

/-- Why a walk along a shape ends early. -/
inductive Stop where
  | rejected (error : PatternError)
  | trapped (trap : Trap)
  deriving DecidableEq, Repr

/-- A computation that looks at a shape position by position. -/
abbrev Walk := Except Stop

namespace Walk

/-- A computation without accesses, as part of a walk. -/
def ofOutcome {α : Type} : Outcome α → Walk α
  | .ok a => .ok a
  | .error (.rejected e) => .error (.rejected e)
  | .error .outOfRange => .error (.trapped .index)

/-- The dimension at a position. -/
def entry (shape : Shape) (position : Nat) : Walk Nat :=
  match shape[position]? with
  | some d => .ok d
  | none => .error (.trapped .index)

/-- The dimensions from one position up to another. -/
def slice (shape : Shape) (first last : Nat) : Walk Shape :=
  if first ≤ last ∧ last ≤ shape.length then .ok ((shape.take last).drop first)
  else .error (.trapped .slice)

/-- A difference of sizes, which cannot be negative. -/
def difference (a b : Nat) : Walk Nat :=
  if b ≤ a then .ok (a - b) else .error (.trapped .underflow)

/-- A quotient of sizes. -/
def quotient (a b : Nat) : Walk Nat :=
  if b = 0 then .error (.trapped .division) else .ok (a / b)

/-- What a quotient of sizes leaves over. -/
def remainder (a b : Nat) : Walk Nat :=
  if b = 0 then .error (.trapped .division) else .ok (a % b)

/-- What is left for one name when a dimension is divided by the other sizes of its group. The
remainder is looked at only for a divisor other than zero. -/
def share (dimension known : Nat) : Walk (Option Nat) :=
  if known = 0 then .ok none
  else do
    if (← remainder dimension known) ≠ 0 then return none
    return some (← quotient dimension known)

/-- The size of a name, if it is known. One that is bound must not contradict the given one. -/
def known? (pattern : String) (given : Sizes) (b : Binding) (name : String) :
    Walk (Option Nat) :=
  match b.sizes[name]? with
  | some bound => do
    ofOutcome <| Outcome.agree given[name]? bound fun size =>
      ((PatternError.ofShape pattern (.sizeMismatch name size bound)).withAxes [name]).withShapes
        [size] [bound]
    return some bound
  | none => return given[name]?

/-- Goes through the names of a group, multiplies the sizes that are known and lists the names whose
sizes are not. -/
def survey (pattern : String) (given : Sizes) (b : Binding) :
    List String → Nat → List String → Walk (Nat × List String)
  | [], known, unknown => return (known, unknown)
  | name :: names, known, unknown => do
    match ← known? pattern given b name with
    | some size =>
      let known ← ofOutcome <| Outcome.orReject (Shape.times? known size) <|
        .ofShape pattern .productOverflow
      survey pattern given b names known unknown
    | none => survey pattern given b names known (unknown ++ [name])

/-- Binds the names that are not bound yet and whose sizes are known. -/
def adopt (pattern : String) (given : Sizes) : List String → Binding → Walk Binding
  | [], b => return b
  | name :: names, b => do
    if name ∈ b.sizes then adopt pattern given names b
    else
      match ← known? pattern given b name with
      | some size => adopt pattern given names (b.set name size)
      | none => adopt pattern given names b

/-- Matches a group, of which the names are listed, with a dimension. -/
def bindGroup (pattern : String) (given : Sizes) (group : Term) (dimension : Nat) (b : Binding) :
    Walk Binding := do
  let names := group.names
  let (known, unknown) ← survey pattern given b names 1 []
  match unknown with
  | [] =>
    ofOutcome <| Outcome.require (known = dimension) <|
      ((PatternError.ofShape pattern (.groupSize group.render known dimension)).withAxes
        names).withShapes [known] [dimension]
    adopt pattern given names b
  | [name] =>
    let size ← ofOutcome <| Outcome.orReject (← share dimension known) <|
      (PatternError.ofShape pattern (.indivisible dimension group.render known)).withAxes names
    adopt pattern given names (b.set name size)
  | _ =>
    ofOutcome <| Outcome.reject <|
      (PatternError.ofShape pattern (.undetermined unknown.length group.render)).withAxes
        (Name.sorted unknown)

/-- Matches terms with the dimensions from a position on, where an ellipsis takes `width` of
them. -/
def bindTerms (pattern : String) (given : Sizes) (shape : Shape) (width : Nat) :
    Terms → Nat → Binding → Walk Binding
  | [], _, b => .ok b
  | .name n _ :: ts, position, b => do
    let dimension ← entry shape position
    let b ← ofOutcome (bindName pattern given n dimension b)
    bindTerms pattern given shape width ts (position + 1) b
  | .group ms s :: ts, position, b => do
    let dimension ← entry shape position
    let b ← bindGroup pattern given (.group ms s) dimension b
    bindTerms pattern given shape width ts (position + 1) b
  | .ellipsis _ :: ts, position, b => do
    let run ← slice shape position (position + width)
    bindTerms pattern given shape width ts (position + width) ⟨b.sizes, run⟩
  | .unit _ :: ts, position, b => do
    let dimension ← entry shape position
    ofOutcome <| Outcome.require (dimension = 1) <|
      (PatternError.ofShape pattern (.unitDimension position dimension)).withActual shape
    bindTerms pattern given shape width ts (position + 1) b

/-- Matches the input terms with a shape, which must have as many dimensions as they take. -/
def bindInput (pattern : String) (given : Sizes) (input : Terms) (shape : Shape) :
    Walk Binding := do
  let least := input.dimensions
  ofOutcome <| Outcome.require (shape.length = least ∨ (input.isOpen ∧ least ≤ shape.length)) <|
    (PatternError.ofShape pattern (.rank input.isOpen least shape.length)).withActual shape
  let width ← difference shape.length least
  bindTerms pattern given shape width input 0 .empty

/-- The resolution of a pattern on a shape. Only matching the input looks up positions. -/
def solve (kind : Kind) (p : Pattern) (shape : Shape) (explicit : SizeList) :
    Walk Resolution := do
  let given ← ofOutcome (collect p.text ∅ explicit)
  let bound ← bindInput p.text given p.input shape
  ofOutcome do
    let bound ← if kind = .repeating then bindNew p.text given bound p.output.names else .ok bound
    let output ← shapeOf p.text bound p.output
    if kind = .rearranging then conserve p.text shape output
    return ⟨bound.sizes, bound.covered, output⟩

end Walk

/-- A trap is a position outside the shape for all that can be told from its outcome. -/
def Stop.failure : Stop → Failure
  | rejected e => .rejected e
  | trapped _ => .outOfRange

/-- What a walk comes to. -/
def Walk.outcome {α : Type} (w : Walk α) : Outcome α :=
  w.mapError Stop.failure

end AxisNotation.Resolution
