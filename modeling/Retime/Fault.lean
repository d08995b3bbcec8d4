import Retime.Decimal.Layout
import Retime.Width

/-! # Faults and failures

A `Fault` is one cause for which a description cannot be scheduled; it has a
stable code and one wording. A `Failure` attributes a fault to the operator and
the call that met it.

Signals, instances and operators are numbered without a limit, so no call meets
`Fault.indexExhausted`: it is kept for a numbering by 32 bits, which has none left
after `2 ^ 32` entries. What is said of descriptions is meant for those that have no
more than that many entries of each kind.
-/

namespace Retime

/-- The direction of a port, seen from the operator that owns it. -/
inductive Direction where
  | input
  | output
deriving DecidableEq, Repr

def Direction.text : Direction → String
  | input => "input"
  | output => "output"

/-- What is numbered by an index of 32 bits. -/
inductive IndexSpace where
  | signals
  | instances
  | operators
deriving DecidableEq, Repr

def IndexSpace.text : IndexSpace → String
  | signals => "signal"
  | instances => "instance"
  | operators => "operator"

/-- Why a description cannot be scheduled. -/
inductive Fault where
  | duplicateSignal (name : String)
  | unknownSignal (name : String)
  /-- A value is used in a cycle before the one it is valid in. -/
  | backwardReference (name : String) (declared requested : Nat)
  | operatorClosed (operator : String)
  /-- A delay is no non-negative number or exceeds the clock period. -/
  | unreachableTiming (delay period : Float)
  | unfinishedSubOperator (name : String)
  | outputNotReadable (name : String)
  | invalidField (name : String) (field : FloatField)
  | unknownPort (operator : String) (direction : Direction) (formal : String)
  | unboundPort (operator formal : String)
  | portAlreadyBound (formal : String)
  | widthMismatch (formal actual : String) (expected found : Nat)
  | duplicateInstance (name : String)
  | duplicateOperator (name : String)
  | cycleOverflow (cycle offset : Nat)
  /-- A numbering has no index left; no call comes that far. -/
  | indexExhausted (space : IndexSpace) (count : Nat)
deriving DecidableEq

namespace Fault

/-- The code of a fault: the first two digits give its area, namely signals,
scheduling, composition or capacity. -/
def code : Fault → String
  | duplicateSignal .. => "E0101"
  | unknownSignal .. => "E0102"
  | outputNotReadable .. => "E0103"
  | invalidField .. => "E0104"
  | backwardReference .. => "E0201"
  | unreachableTiming .. => "E0202"
  | operatorClosed .. => "E0203"
  | cycleOverflow .. => "E0204"
  | unfinishedSubOperator .. => "E0301"
  | unknownPort .. => "E0302"
  | unboundPort .. => "E0303"
  | portAlreadyBound .. => "E0304"
  | widthMismatch .. => "E0305"
  | duplicateInstance .. => "E0306"
  | duplicateOperator .. => "E0307"
  | indexExhausted .. => "E0401"

def message : Fault → String
  | duplicateSignal name => s!"signal '{name}' is already declared"
  | unknownSignal name => s!"signal '{name}' is not declared"
  | backwardReference name declared requested =>
    s!"signal '{name}' is declared at cycle {declared} but used at cycle {requested}"
  | operatorClosed operator => s!"operator '{operator}' is finalized and cannot be modified"
  | unreachableTiming delay period =>
    "delay " ++ Layout.message.text delay ++ "ns cannot fit in a "
      ++ Layout.message.text period ++ "ns clock period"
  | unfinishedSubOperator name => s!"sub-operator '{name}' has no finalized schedule"
  | outputNotReadable name => s!"primary output '{name}' is write-only"
  | invalidField name field =>
    s!"signal '{name}' is not floating-point and has no {field.name} field"
  | unknownPort operator direction formal =>
    s!"'{operator}' has no {direction.text} port '{formal}'"
  | unboundPort operator formal => s!"input port '{formal}' of '{operator}' is not bound"
  | portAlreadyBound formal => s!"port '{formal}' is bound more than once"
  | widthMismatch formal actual expected found =>
    s!"port '{formal}' is {expected} bits wide but '{actual}' is {found} bits"
  | duplicateInstance name => s!"instance '{name}' already exists"
  | duplicateOperator name => s!"operator '{name}' is already registered"
  | cycleOverflow cycle offset => s!"cycle {cycle} + {offset} does not fit the cycle counter"
  | indexExhausted space count => s!"no {space.text} index left after {count} entries"

end Fault

/-- A fault attributed to the operator and the call that met it. -/
structure Failure where
  operator : String
  call : String
  fault : Fault
deriving DecidableEq

def Failure.message (f : Failure) : String :=
  s!"error[{f.fault.code}]: in operator '{f.operator}', {f.call}: {f.fault.message}"

end Retime
