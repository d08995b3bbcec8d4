import Retime.Fault
import Retime.Signal

/-! # Interfaces, wirings and instances

A finished operator shows its ports, its depth and the delay of each output. A
wiring says what the ports of one copy are connected to, and an instance is such a
copy with its connections made.
-/

namespace Retime

/-- An operator's position in its library. -/
abbrev Handle := Nat

def Handle.text (h : Handle) : String :=
  s!"op#{h}"

structure Port where
  name : String
  width : Width
  /-- The time by which a value leaves the port after the clock edge; zero for inputs. -/
  delay : Float
deriving DecidableEq

/-- What a parent sees of an operator. -/
structure Interface where
  name : String
  inputs : List Port
  outputs : List Port
  /-- The number of cycles from the inputs to the outputs. -/
  depth : Nat
  /-- Whether the operator has ports for clock and reset. -/
  sequential : Bool
deriving DecidableEq

/-- What an input is connected to: a signal of the parent, or a constant that is
kept as it is written. -/
inductive Source where
  | signal (name : String)
  | constant (text : String)
deriving DecidableEq, Repr

/-- Connections by formal name, in the order in which they were made. An output is
connected to a new signal of the parent. -/
structure Wiring where
  inputs : List (String × Source) := []
  outputs : List (String × String) := []
deriving DecidableEq, Repr

namespace Wiring

def input (w : Wiring) (formal signal : String) : Wiring :=
  { w with inputs := w.inputs ++ [(formal, .signal signal)] }

def constant (w : Wiring) (formal text : String) : Wiring :=
  { w with inputs := w.inputs ++ [(formal, .constant text)] }

def output (w : Wiring) (formal signal : String) : Wiring :=
  { w with outputs := w.outputs ++ [(formal, signal)] }

/-- Checks connected formals one after another against the ports there are and the
formals connected so far, and returns the latter. -/
def checkFormals (itf : Interface) (direction : Direction) (ports : List Port) :
    List String → List String → Except Fault (List String)
  | seen, [] => .ok seen
  | seen, formal :: formals =>
    if ¬ ports.any (·.name = formal) then .error (.unknownPort itf.name direction formal)
    else if formal ∈ seen then .error (.portAlreadyBound formal)
    else checkFormals itf direction ports (formal :: seen) formals

/-- Checks that only ports of the interface are connected, none of them twice, and
that no input is left open. -/
def check (w : Wiring) (itf : Interface) : Except Fault Unit := do
  let seen ← checkFormals itf .input itf.inputs [] (w.inputs.map (·.1))
  let seen ← checkFormals itf .output itf.outputs seen (w.outputs.map (·.1))
  match itf.inputs.find? fun p => p.name ∉ seen with
  | some p => .error (.unboundPort itf.name p.name)
  | none => .ok ()

end Wiring

/-- A connected input: a signal that is valid when the inputs are taken, or a constant. -/
inductive Actual where
  | signal (id : SignalId)
  | constant (text : String)
deriving DecidableEq, Repr

/-- A copy of an operator inside another one. -/
structure Instance where
  id : Nat
  name : String
  sub : Handle
  /-- The interface of the copied operator. -/
  interface : Interface
  /-- The cycle in which the inputs are taken. -/
  inputCycle : Nat
  /-- The cycle in which the outputs are valid. -/
  outputCycle : Nat
  /-- Every input of the interface, in its order. -/
  inputs : List (String × Actual)
  /-- Every output of the interface, in its order; some may be left open. -/
  outputs : List (String × Option SignalId)
deriving DecidableEq

end Retime
