import Retime.Signal

/-! # Schedules

What a finished operator does in each cycle: the assignments that hold, the
instances whose inputs are taken and the registers that are loaded.
-/

namespace Retime

/-- The right-hand side of an assignment. -/
inductive Value where
  | expr (text : String)
  | signal (id : SignalId)
deriving DecidableEq, Repr

/-- A continuous assignment. -/
structure Assignment where
  target : SignalId
  value : Value
deriving DecidableEq, Repr

/-- A register that takes over the value of `source` at every clock edge. -/
structure Load where
  target : SignalId
  source : SignalId
  clocking : Clocking
deriving DecidableEq, Repr

/-- An output that is exposed later than it was declared. -/
structure Realignment where
  output : SignalId
  /-- The signal that holds the value in the output's own cycle. -/
  base : SignalId
  /-- The stage that is valid in the last cycle and drives the port. -/
  last : SignalId
deriving DecidableEq, Repr

/-- What happens in one cycle. -/
structure Slice where
  cycle : Nat
  /-- The longest path recorded in the cycle. -/
  peak : Float
  assignments : List Assignment
  /-- The instances whose inputs are taken. -/
  instances : List Nat
  /-- The stages that become valid. -/
  loads : List Load
deriving DecidableEq

structure Schedule where
  /-- The number of cycles from the inputs to the outputs. -/
  depth : Nat
  /-- Whether the operator needs clock and reset. -/
  sequential : Bool
  /-- One slice for every cycle, from zero on. -/
  slices : List Slice
  realignments : List Realignment
  registerCount : Nat
  /-- The delay of each output, in the order of the outputs. -/
  outputDelays : List Float
deriving DecidableEq

namespace Schedule

def loads (s : Schedule) : List Load :=
  s.slices.flatMap (·.loads)

def assignments (s : Schedule) : List Assignment :=
  s.slices.flatMap (·.assignments)

end Schedule

end Retime
