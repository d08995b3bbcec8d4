import Std.Data.HashSet
import Retime.Dataflow
import Retime.Interface
import Retime.Schedule
import Retime.Text.Quoted
import Retime.Timeline

/-! # Operators

An operator is described by calls that declare values on its timeline and read
them later. Once it is finished it has a schedule, and from then on it is closed.
-/

namespace Retime

/-- A primary output and the time by which its value leaves after the clock edge. -/
structure OutputPort where
  signal : SignalId
  delay : Float

structure Operator where
  handle : Handle
  name : String
  timeline : Timeline
  flow : Dataflow := {}
  inputs : Array SignalId := #[]
  outputs : Array OutputPort := #[]
  instances : Array Instance := #[]
  /-- The signals that were read, before their alignment. -/
  consumed : Std.HashSet SignalId := ∅
  /-- Present once the operator is finished. -/
  schedule : Option Schedule := none

namespace Operator

@[inline] def isFinished (op : Operator) : Bool :=
  op.schedule.isSome

def depth? (op : Operator) : Option Nat :=
  op.schedule.map (·.depth)

/-- A port that shows a signal. -/
def port? (op : Operator) (id : SignalId) (delay : Float) : Option Port :=
  (op.flow.netlist.signal? id).map fun s => { name := s.name, width := s.width, delay }

/-- What a parent sees, once the operator is finished. -/
def interface? (op : Operator) : Option Interface :=
  op.schedule.map fun schedule =>
    { name := op.name
      inputs := op.inputs.toList.filterMap (op.port? · 0)
      outputs := (op.outputs.toList.zip schedule.outputDelays).filterMap fun (out, delay) =>
        op.port? out.signal delay
      depth := schedule.depth
      sequential := schedule.sequential }

/-- A one-line description. -/
def summary (op : Operator) : String :=
  "Operator \x7b handle: OperatorHandle(" ++ toString op.handle
    ++ "), name: " ++ Text.quoted op.name
    ++ s!", signals: {op.flow.netlist.size}, cycle: {op.timeline.cycle}"
    ++ s!", finalized: {op.isFinished} \x7d"

/-- Runs an action on the dataflow of an operator. -/
@[inline] def onFlow {ε α : Type} (m : Action ε Dataflow α) : Action ε Operator α :=
  m.zoom (·.flow) fun op flow => { op with flow }

/-- Goes on with a new timeline, or stops. -/
@[inline] def onTimeline {ε : Type} (f : Timeline → Except ε Timeline) :
    Action ε Operator Unit := do
  let op ← Action.get
  let timeline ← Action.ofExcept (f op.timeline)
  Action.modify fun op => { op with timeline }

/-- The signal of that name. -/
def find (name : String) : Action Fault Operator Signal := do
  let op ← Action.get
  Action.ofExcept (op.flow.netlist.find name)

/-- Declares a signal that is valid in the current cycle. -/
def declareHere (name : String) (role : Role) (clocking : Clocking) (width : Width)
    (driver : Driver) : Action Fault Operator SignalId := do
  let op ← Action.get
  let cycle := op.timeline.cycle
  onFlow (Dataflow.declare { name, role, clocking, width, cycle, driver })

/-- The signal that carries the value of `name` in a cycle. Outputs cannot be read. -/
def read (name : String) (cycle : Nat) : Action Fault Operator SignalId := do
  let s ← find name
  if s.role = .output then Action.stop (.outputNotReadable name)
  else
    let id ← onFlow (Dataflow.resolve s cycle)
    Action.modify fun op => { op with consumed := op.consumed.insert s.id }
    return id

end Operator

end Retime
