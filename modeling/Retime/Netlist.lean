import Std.Data.HashMap
import Retime.Fault
import Retime.Signal

/-! # Netlists

The signals of one operator in the order of their declaration, with an index of
their names. Signals are only ever added, and no name is given twice.
-/

namespace Retime

structure Netlist where
  signals : Array Signal := #[]
  /-- The id of every name. -/
  index : Std.HashMap String SignalId := ∅

namespace Netlist

def size (n : Netlist) : Nat :=
  n.signals.size

def signal? (n : Netlist) (id : SignalId) : Option Signal :=
  n.signals[id]?

def contains (n : Netlist) (name : String) : Bool :=
  n.index.contains name

/-- The signal of that name. -/
def find (n : Netlist) (name : String) : Except Fault Signal :=
  match n.index[name]?.bind n.signal? with
  | some s => .ok s
  | none => .error (.unknownSignal name)

/-- Adds a signal, whose id is the number of those before it. -/
def add (n : Netlist) (d : Declaration) : Netlist where
  signals := n.signals.push { d with id := n.size }
  index := n.index.insert d.name n.size

/-- The name that a signal is written with. -/
def name (n : Netlist) (id : SignalId) : String :=
  ((n.signal? id).map (·.name)).getD ""

/-- The signal at the head of the delay line that `s` belongs to: a stage has
another one, every other signal is its own. -/
def root (n : Netlist) (s : Signal) : Signal :=
  match s.driver with
  | .stage root _ => (n.signal? root).getD s
  | _ => s

end Netlist

end Retime
