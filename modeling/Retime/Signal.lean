import Retime.Width

/-! # Signals

A signal is a named value that one driver produces and that becomes valid in one
cycle.
-/

namespace Retime

/-- A signal's position in its netlist. -/
abbrev SignalId := Nat

def SignalId.text (id : SignalId) : String :=
  s!"sig#{id}"

/-- Which side of an operator a signal belongs to. -/
inductive Role where
  | input
  | output
  | internal
deriving DecidableEq, Repr

/-- How the registers made for a signal are clocked. The signal itself is always
driven combinationally. -/
inductive Clocking where
  | combinational
  | registered
  | asyncReset
  | syncReset
deriving DecidableEq, Repr, Ord

namespace Clocking

/-- The clocking of a stage that delays a signal of this clocking. -/
def stage : Clocking → Clocking
  | combinational => registered
  | c => c

def isRegistered (c : Clocking) : Bool :=
  c ≠ combinational

end Clocking

/-- What produces a signal's value. -/
inductive Driver where
  /-- An input port of the operator. -/
  | port
  /-- A defining expression, whose text is kept as it is. -/
  | expr (text : String)
  /-- An output port of an instance. -/
  | inst (id : Nat) (formal : String)
  /-- The register at depth `depth`, counted from one, of the delay line of `root`. -/
  | stage (root : SignalId) (depth : Nat)
deriving DecidableEq, Repr

/-- What is fixed when a signal is declared. -/
structure Declaration where
  name : String
  role : Role
  clocking : Clocking := .combinational
  width : Width
  /-- The cycle from which on the value is valid. -/
  cycle : Nat
  driver : Driver
deriving DecidableEq, Repr

/-- A declared signal. -/
structure Signal extends Declaration where
  id : SignalId
deriving DecidableEq, Repr

def Signal.isStage (s : Signal) : Bool :=
  match s.driver with
  | .stage .. => true
  | _ => false

end Retime
