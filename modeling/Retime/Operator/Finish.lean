import Retime.Agenda
import Retime.Operator.Basic

/-! # Finishing an operator

An operator is finished once, at the end of its description. Outputs that were
declared before its last cycle are realigned: a delay line carries their value to
that cycle. What was described is then laid out cycle by cycle.
-/

namespace Retime.Operator

/-- The cycle in which the outputs are exposed: the last one in which an output is
declared or an instance delivers, or zero if there are no outputs. -/
def exposure (op : Operator) : Nat :=
  let cycles :=
    op.outputs.toList.filterMap (fun out => (op.flow.netlist.signal? out.signal).map (·.cycle))
      ++ op.instances.toList.map (·.outputCycle)
  if op.outputs.isEmpty then 0 else cycles.foldl max 0

/-- An output as it is exposed. -/
structure ExposedOutput where
  delay : Float
  /-- Present if the output was declared before the cycle in which it is exposed. -/
  realignment : Option Realignment

/-- Declares a signal that holds the value of `s`, and carries that value on to a
later cycle through stages named after `s`. -/
def carry (s : Signal) (cycle : Nat) : Action Fault Dataflow (SignalId × SignalId) := do
  let held := { s.toDeclaration with name := Dataflow.stageName s.name 0, role := .internal }
  let base ← Dataflow.declare held
  Action.modify fun d => d.setStem base s.name
  let last ← Dataflow.resolve { held with id := base } cycle
  return (base, last)

/-- Brings an output to the cycle `depth`. If it was declared before that cycle, it
leaves a register there, hence without delay. -/
def expose (depth : Nat) (out : OutputPort) : Action Fault Operator ExposedOutput := do
  let op ← Action.get
  match op.flow.netlist.signal? out.signal with
  | none => return { delay := out.delay, realignment := none }
  | some s =>
    if s.cycle = depth then return { delay := out.delay, realignment := none }
    else
      let (base, last) ← onFlow (carry s depth)
      return { delay := 0, realignment := some { output := s.id, base, last } }

/-- The assignment that drives a signal, with its cycle. A realigned output is
driven by its last stage, in the cycle `depth`. -/
def assignment? (depth : Nat) (realignments : List Realignment) (s : Signal) :
    Option (Nat × Assignment) :=
  match s.role, s.driver with
  | .output, .expr text =>
    match realignments.find? (·.output = s.id) with
    | some r => some (depth, ⟨s.id, .signal r.last⟩)
    | none => some (s.cycle, ⟨s.id, .expr text⟩)
  | .internal, .expr text => some (s.cycle, ⟨s.id, .expr text⟩)
  | _, _ => none

/-- The load of the register that a signal is, if it is one. -/
def load? (flow : Dataflow) (s : Signal) : Option Load :=
  match s.driver with
  | .stage root depth =>
    let source := if depth = 1 then some root else (flow.stages root)[depth - 2]?
    source.map fun source => { target := s.id, source, clocking := s.clocking }
  | _ => none

/-- The last cycle in which something happens. -/
def lastCycle (op : Operator) (depth : Nat) : Nat :=
  let cycles := op.flow.netlist.signals.toList.map (·.cycle)
    ++ op.instances.toList.map (·.inputCycle)
  cycles.foldl max depth

/-- What happens in every cycle. -/
def slices (op : Operator) (depth : Nat) (realignments : List Realignment) : List Slice :=
  let signals := op.flow.netlist.signals.toList
  let assignments := Agenda.ofList (signals.filterMap (assignment? depth realignments))
  let instances := Agenda.ofList (op.instances.toList.map fun i => (i.inputCycle, i.id))
  let loads := Agenda.ofList (signals.filterMap fun s => (load? op.flow s).map (s.cycle, ·))
  (List.range (op.lastCycle depth + 1)).map fun cycle =>
    { cycle
      peak := op.timeline.peak cycle
      assignments := assignments.items cycle
      instances := instances.items cycle
      loads := loads.items cycle }

/-- The schedule of an operator whose outputs are exposed in the cycle `depth`. On
a pipelined timeline no path may be longer than the period. -/
def layOut (op : Operator) (depth : Nat) (outputs : List ExposedOutput) :
    Except Fault Schedule :=
  let realignments := outputs.filterMap (·.realignment)
  let slices := op.slices depth realignments
  let registerCount := op.flow.registerCount
  match slices.find? fun s => op.timeline.pipelined ∧ op.timeline.period < s.peak with
  | some s => .error (.unreachableTiming s.peak op.timeline.period)
  | none => .ok
    { depth
      sequential := 0 < registerCount ∨ 0 < depth ∨ op.instances.any (·.interface.sequential)
      slices
      realignments
      registerCount
      outputDelays := outputs.map (·.delay) }

/-- The outputs of instances that are connected to a signal which is never read. -/
def unusedOutputs (op : Operator) : List Event :=
  op.instances.toList.flatMap fun inst => inst.outputs.filterMap fun (formal, signal) =>
    match signal with
    | some id => if id ∈ op.consumed then none else some (.unused op.name formal inst.name)
    | none => none

/-- Closes an operator and gives it its schedule. -/
def finish : Action Fault Operator Unit := do
  let depth := (← Action.get).exposure
  let outputs ← Action.forEach (expose depth) (← Action.get).outputs.toList
  let op ← Action.get
  let schedule ← Action.ofExcept (op.layOut depth outputs)
  let _ ← Action.forEach Action.report op.unusedOutputs
  Action.report (.finished op.name depth schedule.registerCount op.instances.size)
  Action.modify fun op => { op with schedule := some schedule }

end Retime.Operator
