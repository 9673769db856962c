import AxisNotation.Pattern
import AxisNotation.Step

/-!
# Shortcuts

A pattern whose terms all name one axis each, and whose sides have the same axes, only reorders the
axes: one step is enough to rearrange a tensor by it.
-/

namespace AxisNotation

/-- A pattern that takes a single step. -/
inductive Shortcut where
  | identity
  | transpose
  /-- Output axis `i` is input axis `axes[i]`. -/
  | permute (axes : List Nat)
  deriving DecidableEq, Repr

namespace Pattern

/-- For a pattern that only reorders axes, the input position of each output axis. -/
def permutation? (p : Pattern) : Option (List Nat) := do
  let input ← p.input.plainNames?
  let output ← p.output.plainNames?
  if input.length = output.length then
    let positions := output.filterMap input.idxOf?
    if positions.length = input.length then some positions else none
  else none

/-- Whether a pattern leaves every axis at its place. -/
def isIdentity (p : Pattern) : Bool :=
  p.permutation?.any inOrder

/-- Whether a pattern swaps two axes. -/
def isTranspose (p : Pattern) : Bool :=
  p.permutation? == some [1, 0]

/-- The permutation of a pattern that reorders axes and is not the identity. -/
def reordering? (p : Pattern) : Option (List Nat) :=
  p.permutation?.filter fun positions => !inOrder positions

end Pattern

namespace Shortcut

/-- The shortcut that permutes axes, in its simplest form. -/
def ofPermutation (positions : List Nat) : Shortcut :=
  if inOrder positions then .identity
  else if positions = [1, 0] then .transpose
  else .permute positions

/-- The shortcut of a pattern, if it has one. -/
def ofPattern? (p : Pattern) : Option Shortcut :=
  p.permutation?.map ofPermutation

/-- The word for a shortcut. -/
def word : Shortcut → String
  | identity => "identity"
  | transpose => "transpose"
  | permute _ => "permute"

/-- Whether a shortcut leaves the tensor as it is. -/
def isIdentity : Shortcut → Bool
  | identity => true
  | _ => false

/-- The permutation that a shortcut applies; the identity applies none. -/
def permutation? : Shortcut → Option (List Nat)
  | identity => none
  | transpose => some [1, 0]
  | permute axes => some axes

/-- The step that carries out a shortcut. -/
def step : Shortcut → Step
  | identity => .identity
  | transpose => .transpose
  | permute axes => .permute axes

end Shortcut

end AxisNotation
