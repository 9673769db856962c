import AxisNotation.Error
import AxisNotation.Kind
import AxisNotation.Pattern
import AxisNotation.Resolution

/-!
# Finding the sizes of axes

The input terms are matched with the dimensions of a shape from left to right. A name takes the
dimension that it faces; in a group at most one name may be of unknown size, and it takes what is
left when the dimension is divided by the others; the ellipsis takes all dimensions that the other
terms leave over. The output shape follows from the sizes.
-/

namespace AxisNotation

/-- What is known about a pattern's axes in the course of matching. -/
structure Binding where
  sizes : Sizes
  covered : Shape

namespace Binding

/-- Nothing is known. -/
def empty : Binding :=
  ⟨∅, []⟩

/-- The binding in which an axis has a size. -/
def set (b : Binding) (name : String) (size : Nat) : Binding :=
  ⟨b.sizes.insert name size, b.covered⟩

/-- The size of an axis that is bound or given. -/
def size? (b : Binding) (given : Sizes) (name : String) : Option Nat :=
  b.sizes[name]?.or given[name]?

/-- Binds each of the names that is given and not yet bound. -/
def adopt (b : Binding) (given : Sizes) (names : List String) : Binding :=
  names.foldl (fun b n => ((b.size? given n).map (b.set n)).getD b) b

end Binding

namespace Outcome

/-- Rejects the pattern unless a condition holds. -/
def require (holds : Prop) [Decidable holds] (error : PatternError) : Outcome Unit :=
  if holds then .ok () else .error (.rejected error)

/-- Rejects the pattern if a size is known and differs from the expected one. -/
def agree (known : Option Nat) (size : Nat) (error : Nat → PatternError) : Outcome Unit :=
  match known with
  | some k => require (k = size) (error k)
  | none => .ok ()

end Outcome

namespace Resolution

/-- The product of some sizes, if it can be stated. -/
def product (pattern : String) (sizes : List Nat) : Outcome Nat :=
  .orReject (Shape.product? sizes) (.ofShape pattern .productOverflow)

/-- Collects explicit sizes, which must be positive and not contradict each other. -/
def collect (pattern : String) (known : Sizes) : SizeList → Outcome Sizes
  | [] => .ok known
  | (name, size) :: rest => do
    Outcome.require (size ≠ 0) <|
      (PatternError.ofShape pattern (.zeroSize name)).withAxes [name]
    Outcome.agree known[name]? size fun first =>
      (PatternError.ofShape pattern (.conflictingSizes name first size)).withAxes [name]
    collect pattern (known.insert name size) rest

/-- Matches a name with a dimension. -/
def bindName (pattern : String) (given : Sizes) (name : String) (dimension : Nat) (b : Binding) :
    Outcome Binding := do
  Outcome.agree given[name]? dimension fun size =>
    ((PatternError.ofShape pattern (.sizeMismatch name size dimension)).withAxes [name]).withShapes
      [size] [dimension]
  Outcome.agree b.sizes[name]? dimension fun bound =>
    (PatternError.ofShape pattern (.reboundAxis name bound dimension)).withAxes [name]
  return b.set name dimension

/-- Matches a group, of which the names are listed, with a dimension. -/
def bindGroup (pattern : String) (given : Sizes) (group : Term) (dimension : Nat) (b : Binding) :
    Outcome Binding := do
  let names := group.names
  let unknown := names.filter fun n => (b.size? given n).isNone
  let known ← product pattern (names.filterMap (b.size? given))
  match unknown with
  | [] =>
    Outcome.require (known = dimension) <|
      ((PatternError.ofShape pattern (.groupSize group.render known dimension)).withAxes
        names).withShapes [known] [dimension]
    return b.adopt given names
  | [name] =>
    Outcome.require (known ≠ 0 ∧ dimension % known = 0) <|
      (PatternError.ofShape pattern (.indivisible dimension group.render known)).withAxes names
    return (b.set name (dimension / known)).adopt given names
  | _ =>
    Outcome.reject <|
      (PatternError.ofShape pattern (.undetermined unknown.length group.render)).withAxes
        (Name.sorted unknown)

/-- Matches one term that is not an ellipsis with the dimension at a position of the shape. -/
def bindTerm (pattern : String) (given : Sizes) (shape : Shape) (position dimension : Nat)
    (b : Binding) : Term → Outcome Binding
  | .name n _ => bindName pattern given n dimension b
  | .group ms s => bindGroup pattern given (.group ms s) dimension b
  | .ellipsis _ => .ok b
  | .unit _ => do
    Outcome.require (dimension = 1) <|
      (PatternError.ofShape pattern (.unitDimension position dimension)).withActual shape
    return b

/-- Matches terms with the dimensions of the shape from a position on, where an ellipsis takes
`width` of them. -/
def bindTerms (pattern : String) (given : Sizes) (shape : Shape) (width : Nat) :
    Terms → Nat → Shape → Binding → Outcome Binding
  | [], _, _, b => .ok b
  | .ellipsis _ :: ts, position, dimensions, b =>
    if width ≤ dimensions.length then
      bindTerms pattern given shape width ts (position + width) (dimensions.drop width)
        ⟨b.sizes, dimensions.take width⟩
    else .error .outOfRange
  | t :: ts, position, dimensions, b =>
    match dimensions with
    | [] => .error .outOfRange
    | d :: ds => do
      let b ← bindTerm pattern given shape position d b t
      bindTerms pattern given shape width ts (position + 1) ds b

/-- Matches the input terms with a shape, which must have as many dimensions as they take. -/
def bindInput (pattern : String) (given : Sizes) (input : Terms) (shape : Shape) :
    Outcome Binding := do
  let least := input.dimensions
  Outcome.require (shape.length = least ∨ (input.isOpen ∧ least ≤ shape.length)) <|
    (PatternError.ofShape pattern (.rank input.isOpen least shape.length)).withActual shape
  bindTerms pattern given shape (shape.length - least) input 0 shape .empty

/-- Binds the names that only the output has to their explicit sizes. -/
def bindNew (pattern : String) (given : Sizes) (b : Binding) : List String → Outcome Binding
  | [] => .ok b
  | name :: names =>
    if name ∈ b.sizes then bindNew pattern given b names
    else do
      let size ← Outcome.orReject given[name]? (.ofNames pattern .unsized [name])
      bindNew pattern given (b.set name size) names

end Resolution

mutual

/-- The size of a term. A group has the product of its members' sizes. -/
def Term.size (pattern : String) (b : Binding) : Term → Outcome Nat
  | .name n _ =>
    .orReject b.sizes[n]? ((PatternError.ofShape pattern (.unresolved n)).withAxes [n])
  | .group ms _ => do
    Resolution.product pattern (← Terms.sizes pattern b ms)
  | .ellipsis _ => Resolution.product pattern b.covered
  | .unit _ => .ok 1

/-- The sizes of a list of terms. -/
def Terms.sizes (pattern : String) (b : Binding) : Terms → Outcome (List Nat)
  | [] => .ok []
  | t :: ts => do
    let size ← t.size pattern b
    let sizes ← Terms.sizes pattern b ts
    return size :: sizes

end

namespace Resolution

/-- The dimensions of the output terms, in which an ellipsis stands for the covered dimensions. -/
def shapeOf (pattern : String) (b : Binding) : Terms → Outcome Shape
  | [] => .ok []
  | .ellipsis _ :: ts => do
    return b.covered ++ (← shapeOf pattern b ts)
  | t :: ts => do
    let size ← t.size pattern b
    let sizes ← shapeOf pattern b ts
    return size :: sizes

/-- Rearranging keeps the number of elements. -/
def conserve (pattern : String) (input output : Shape) : Outcome Unit := do
  let before ← product pattern input
  let after ← product pattern output
  Outcome.require (before = after) <|
    (PatternError.ofShape pattern (.elementCount before after)).withShapes input output

/-- The resolution of a pattern on a shape, under some explicit sizes. The pattern is expected to
be valid for the kind of operation. -/
def solve (kind : Kind) (p : Pattern) (shape : Shape) (explicit : SizeList) :
    Outcome Resolution := do
  let given ← collect p.text ∅ explicit
  let bound ← bindInput p.text given p.input shape
  let bound ← if kind = .repeating then bindNew p.text given bound p.output.names else .ok bound
  let output ← shapeOf p.text bound p.output
  if kind = .rearranging then conserve p.text shape output
  return ⟨bound.sizes, bound.covered, output⟩

end Resolution

end AxisNotation
