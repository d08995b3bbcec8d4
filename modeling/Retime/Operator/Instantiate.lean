import Retime.Library.Basic

/-! # Instantiation

Places a copy of a finished operator inside another one. The inputs are taken in
the current cycle; the outputs become signals that are valid as many cycles later
as the copied operator is deep, and that arrive in that cycle with its delays.
Instances are numbered in the order in which they are placed, without a limit.
-/

namespace Retime.Operator

/-- The source of an input in the cycle in which the inputs are taken. -/
def connectInput (itf : Interface) (wiring : Wiring) (cycle : Nat) (formal : Port) :
    Action Fault Operator (String × Actual) :=
  match wiring.inputs.lookup formal.name with
  | none => Action.stop (.unboundPort itf.name formal.name)
  | some (.constant text) => return (formal.name, .constant text)
  | some (.signal name) => do
    let s ← find name
    if s.width.bits ≠ formal.width.bits then
      Action.stop (.widthMismatch formal.name name formal.width.bits s.width.bits)
    else
      let id ← read name cycle
      return (formal.name, .signal id)

/-- The signal that an output of instance `id` is connected to, declared here, or
none if the output is left open. -/
def connectOutput (wiring : Wiring) (id : Nat) (cycle : Nat) (formal : Port) :
    Action Fault Operator (String × Option SignalId) :=
  match wiring.outputs.lookup formal.name with
  | none => return (formal.name, none)
  | some name => do
    let signal ← onFlow <| Dataflow.declare
      { name
        role := .internal
        width := formal.width
        cycle
        driver := .inst id formal.name }
    onTimeline (·.arrive cycle formal.delay)
    return (formal.name, some signal)

/-- The interface under which `op` sees another operator; it does not see itself. -/
def subInterface (op : Operator) (lib : Library) (sub : Handle) : Except Fault Interface :=
  if sub = op.handle then .error (.unfinishedSubOperator op.name) else lib.interface sub

/-- Places the operator `sub` as the instance `name`. -/
def instantiate (lib : Library) (sub : Handle) (name : String) (wiring : Wiring) :
    Action Fault Operator Unit := do
  let op ← Action.get
  if op.instances.any (·.name = name) then Action.stop (.duplicateInstance name)
  else
    let itf ← Action.ofExcept (op.subInterface lib sub)
    Action.ofExcept (wiring.check itf)
    let id := op.instances.size
    let inputCycle := op.timeline.cycle
    let outputCycle ← Action.ofExcept (laterCycle inputCycle itf.depth)
    let inputs ← Action.forEach (connectInput itf wiring inputCycle) itf.inputs
    let outputs ← Action.forEach (connectOutput wiring id outputCycle) itf.outputs
    Action.report (.placed op.name name itf.name inputCycle outputCycle)
    Action.modify fun op =>
      { op with
        instances := op.instances.push
          { id, name, sub, interface := itf, inputCycle, outputCycle, inputs, outputs } }

end Retime.Operator
