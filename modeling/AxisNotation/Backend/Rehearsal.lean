import AxisNotation.Backend

/-!
# Rehearsals

A plan can be run without any elements: a rehearsal keeps the shape that a tensor would have and the
calls that have been made. It can be told to fail at a call, so that it shows where a run ends. The
calls are kept beside the shape (`Rehearsal.backend`), or in a state that all tensors share
(`Rehearsal.recorder`).
-/

namespace AxisNotation

/-- A tensor without elements: its shape, and the calls that led to it. -/
structure Rehearsal where
  shape : Shape
  calls : List Call
  deriving DecidableEq, Repr

namespace Rehearsal

/-- The end of a rehearsal that was told to fail: the number of the failing call, counted from
zero, and all calls made, the failing one included. -/
structure Stop where
  number : Nat
  calls : List Call
  deriving DecidableEq, Repr

/-- The message of the failure of a call. -/
def message (number : Nat) : String :=
  "call " ++ toString number ++ " failed"

/-- The rehearsal that starts with a shape. -/
def start (shape : Shape) : Rehearsal :=
  ⟨shape, []⟩

/-- The backend of rehearsals, which fails at call number `failAt` if there is one. -/
def backend (failAt : Option Nat) : Backend Stop Rehearsal where
  shape := Rehearsal.shape
  perform call r :=
    if failAt = some r.calls.length then .error ⟨r.calls.length, r.calls ++ [call]⟩
    else .ok ⟨call.outputShape r.shape, r.calls ++ [call]⟩

/-- The backend whose tensors are shapes and whose state is the list of all calls made, which fails
at call number `failAt` if there is one. The failure is the number of the call. -/
def recorder (failAt : Option Nat) : Service (ExceptT Nat (StateM (List Call))) Shape where
  shape := id
  perform call shape := do
    let number := (← get).length
    modify (· ++ [call])
    if failAt = some number then throw number
    return call.outputShape shape

end Rehearsal

end AxisNotation
