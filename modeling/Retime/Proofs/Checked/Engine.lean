import Retime.Proofs.Checked.Steps
import Retime.Proofs.Operator.Script

/-! # The checked engine

The engine once more, with every index and every sum and difference of cycles checked.
Signals are looked up by their ids; a delay line is read at the depth that was worked out
for it, and an item is placed in a cycle only if the schedule has a slice for that cycle.
What needs no check is the engine itself.
-/

namespace Retime.Checked

open Retime.Action (check)

/-! ## Dataflow -/

/-- The signal of that name. -/
def lookup (n : Netlist) (name : String) : Except (Halt Fault) Signal :=
  match n.index[name]? with
  | some id => (entry n.signals id).mapError .slip
  | none => .error (.error (.unknownSignal name))

/-- Appends `count` stages, the first of them at `depth`. -/
def addStages (root : Signal) (stem : String) :
    Nat → Nat → Action (Halt Fault) Dataflow Unit
  | 0, _ => pure ()
  | count + 1, depth => do
    let _ ← check (plus root.cycle depth)
    (Dataflow.addStage root stem depth).halting
    addStages root stem count (depth + 1)

/-- The head of the delay line that a signal belongs to. -/
def head (s : Signal) : SignalId :=
  match s.driver with
  | .stage root _ => root
  | _ => s.id

/-- The signal that carries the value of the signal `id` in a cycle. -/
def resolve (id : SignalId) (cycle : Nat) : Action (Halt Fault) Dataflow SignalId := do
  let d ← Action.get
  let s ← check (entry d.netlist.signals id)
  if cycle < s.cycle then
    Action.stop (.error (.backwardReference s.name s.cycle cycle))
  else if cycle = s.cycle then
    return id
  else
    let line := d.line (head s)
    match line.answers[cycle]? with
    | some id => return id
    | none =>
      let root ← check (entry d.netlist.signals (head s))
      let gap ← check (minus cycle root.cycle)
      addStages root (line.stem.getD root.name) (gap - line.stages.size) (line.stages.size + 1)
      let line := (← Action.get).line (head s)
      let place ← check (minus gap 1)
      let id ← check (entry line.stages place)
      Action.modify fun d =>
        d.setLine (head s) { line with answers := line.answers.insert cycle id }
      return id

/-- The stages that a signal passes on its way to a cycle it was asked for. -/
def chain? (d : Dataflow) (root : SignalId) (cycle : Nat) :
    Except Slip (Option (Array SignalId)) :=
  match (d.line root).answers[cycle]? with
  | none => return none
  | some _ => do
    let s ← entry d.netlist.signals root
    return if s.cycle ≤ cycle ∧ cycle - s.cycle ≤ (d.stages root).size then
      some ((d.stages root).take (cycle - s.cycle))
    else none

/-! ## Reading -/

def find (name : String) : Action (Halt Fault) Operator Signal := do
  let op ← Action.get
  Action.ofExcept (lookup op.flow.netlist name)

def read (name : String) (cycle : Nat) : Action (Halt Fault) Operator SignalId := do
  let s ← find name
  if s.role = .output then Action.stop (.error (.outputNotReadable name))
  else
    let id ← Operator.onFlow (resolve s.id cycle)
    Action.modify fun op => { op with consumed := op.consumed.insert s.id }
    return id

def consume (name : String) : Action (Halt Fault) Operator String := do
  let id ← read name (← Action.get).timeline.cycle
  let s ← check (entry (← Action.get).flow.netlist.signals id)
  return s.name

def consumeField (name : String) (field : FloatField) : Action (Halt Fault) Operator String := do
  match (← find name).width.fieldRange? field with
  | none => Action.stop (.error (.invalidField name field))
  | some range => return range.select (← consume name)

/-! ## Interfaces -/

/-- A port that shows a signal. -/
def port (op : Operator) (id : SignalId) (delay : Float) : Except Slip Port := do
  let s ← entry op.flow.netlist.signals id
  return { name := s.name, width := s.width, delay }

/-- What a parent sees, once the operator is finished. -/
def interface? (op : Operator) : Except Slip (Option Interface) :=
  match op.schedule with
  | none => return none
  | some schedule => do
    let inputs ← op.inputs.toList.mapM (port op · 0)
    let outputs ← (op.outputs.toList.zip schedule.outputDelays).mapM fun o =>
      port op o.1.signal o.2
    return some
      { name := op.name
        inputs
        outputs
        depth := schedule.depth
        sequential := schedule.sequential }

/-- The interface of a committed operator. -/
def interface (lib : Library) (h : Handle) : Except (Halt Fault) Interface :=
  match lib.slots[h]? with
  | none => .error (.error (.unfinishedSubOperator (Handle.text h)))
  | some slot =>
    match slot.operator with
    | none => .error (.error (.unfinishedSubOperator slot.name))
    | some op => do
      match ← (interface? op).mapError .slip with
      | none => .error (.error (.unfinishedSubOperator slot.name))
      | some itf => .ok itf

def subInterface (op : Operator) (lib : Library) (sub : Handle) :
    Except (Halt Fault) Interface :=
  if sub = op.handle then .error (.error (.unfinishedSubOperator op.name)) else interface lib sub

/-! ## Instantiation -/

def connectInput (itf : Interface) (wiring : Wiring) (cycle : Nat) (formal : Port) :
    Action (Halt Fault) Operator (String × Actual) :=
  match wiring.inputs.lookup formal.name with
  | none => Action.stop (.error (.unboundPort itf.name formal.name))
  | some (.constant text) => return (formal.name, .constant text)
  | some (.signal name) => do
    let s ← find name
    if s.width.bits ≠ formal.width.bits then
      Action.stop (.error (.widthMismatch formal.name name formal.width.bits s.width.bits))
    else
      let id ← read name cycle
      return (formal.name, .signal id)

/-- The outputs are delivered in a cycle that the engine checks by itself. -/
def instantiate (lib : Library) (sub : Handle) (name : String) (wiring : Wiring) :
    Action (Halt Fault) Operator Unit := do
  let op ← Action.get
  if op.instances.any (·.name = name) then Action.stop (.error (.duplicateInstance name))
  else
    let itf ← Action.ofExcept (subInterface op lib sub)
    (Action.ofExcept (wiring.check itf)).halting
    let id := op.instances.size
    let inputCycle := op.timeline.cycle
    let outputCycle ← (Action.ofExcept (laterCycle inputCycle itf.depth)).halting
    let inputs ← Action.forEach (connectInput itf wiring inputCycle) itf.inputs
    let outputs ←
      (Action.forEach (Operator.connectOutput wiring id outputCycle) itf.outputs).halting
    Action.report (.placed op.name name itf.name inputCycle outputCycle)
    Action.modify fun op =>
      { op with
        instances := op.instances.push
          { id, name, sub, interface := itf, inputCycle, outputCycle, inputs, outputs } }

/-! ## Finishing -/

/-- The cycle in which the outputs are exposed. -/
def exposure (op : Operator) : Except Slip Nat := do
  let outputs ← op.outputs.toList.mapM fun out =>
    (·.cycle) <$> entry op.flow.netlist.signals out.signal
  let cycles := outputs ++ op.instances.toList.map (·.outputCycle)
  return if op.outputs.isEmpty then 0 else cycles.foldl max 0

def carry (s : Signal) (cycle : Nat) : Action (Halt Fault) Dataflow (SignalId × SignalId) := do
  let held := { s.toDeclaration with name := Dataflow.stageName s.name 0, role := .internal }
  let base ← (Dataflow.declare held).halting
  Action.modify fun d => d.setStem base s.name
  let last ← resolve base cycle
  return (base, last)

def expose (depth : Nat) (out : OutputPort) :
    Action (Halt Fault) Operator Operator.ExposedOutput := do
  let op ← Action.get
  let s ← check (entry op.flow.netlist.signals out.signal)
  if s.cycle = depth then return { delay := out.delay, realignment := none }
  else
    let (base, last) ← Operator.onFlow (carry s depth)
    return { delay := 0, realignment := some { output := s.id, base, last } }

/-- The load of the register that a signal is, if it is one. -/
def load? (flow : Dataflow) (s : Signal) : Except Slip (Option Load) :=
  match s.driver with
  | .stage root depth => do
    let source ←
      if depth = 1 then pure root
      else do entry (flow.stages root) (← minus depth 2)
    return some { target := s.id, source, clocking := s.clocking }
  | _ => return none

/-- An item in its cycle, which is not after the `last` one. -/
def place {α : Type} (last : Nat) (dated : Nat × α) : Except Slip (Nat × α) :=
  if dated.1 < last + 1 then .ok dated else .error (.index dated.1 (last + 1))

/-- What happens in every cycle. -/
def slices (op : Operator) (depth : Nat) (realignments : List Realignment) :
    Except Slip (List Slice) := do
  let last := op.lastCycle depth
  let signals := op.flow.netlist.signals.toList
  let assignments ← signals.mapM fun s =>
    (Operator.assignment? depth realignments s).mapM (place last)
  let loads ← signals.mapM fun s => do
    (← load? op.flow s).mapM fun l => place last (s.cycle, l)
  let instances ← op.instances.toList.mapM fun i => place last (i.inputCycle, i.id)
  return (List.range (last + 1)).map fun cycle =>
    { cycle
      peak := op.timeline.peak cycle
      assignments := (Agenda.ofList (assignments.filterMap id)).items cycle
      instances := (Agenda.ofList instances).items cycle
      loads := (Agenda.ofList (loads.filterMap id)).items cycle }

def layOut (op : Operator) (depth : Nat) (outputs : List Operator.ExposedOutput) :
    Except (Halt Fault) Schedule :=
  let realignments := outputs.filterMap (·.realignment)
  let registerCount := op.flow.registerCount
  match slices op depth realignments with
  | .error slip => .error (.slip slip)
  | .ok slices =>
    match slices.find? fun s => op.timeline.pipelined ∧ op.timeline.period < s.peak with
    | some s => .error (.error (.unreachableTiming s.peak op.timeline.period))
    | none => .ok
      { depth
        sequential := 0 < registerCount ∨ 0 < depth ∨ op.instances.any (·.interface.sequential)
        slices
        realignments
        registerCount
        outputDelays := outputs.map (·.delay) }

def finish : Action (Halt Fault) Operator Unit := do
  let depth ← check (exposure (← Action.get))
  let outputs ← Action.forEach (expose depth) (← Action.get).outputs.toList
  let op ← Action.get
  let schedule ← Action.ofExcept (layOut op depth outputs)
  let _ ← Action.forEach Action.report op.unusedOutputs
  Action.report (.finished op.name depth schedule.registerCount op.instances.size)
  Action.modify fun op => { op with schedule := some schedule }

/-! ## Calls -/

/-- Performs a call on an operator that is not finished. Calls that look nothing up are those
of the engine. -/
def execute (lib : Library) : Call → Action (Halt Fault) Operator (Option String)
  | .consume name => some <$> consume name
  | .consumeField name field => some <$> consumeField name field
  | .jump name => do
    let s ← find name
    Operator.onTimeline fun t => .ok (t.jump s.cycle)
    return none
  | .join name => do
    let s ← find name
    Operator.onTimeline fun t => .ok (t.join s.cycle)
    return none
  | .instantiate sub name wiring => do instantiate lib sub name wiring; return none
  | .finish => do finish; return none
  | c => (Operator.execute lib c).halting

def perform (lib : Library) (c : Call) : Action (Halt Failure) Operator (Option String) := do
  let op ← Action.get
  Action.mapError (Halt.map (Failure.mk op.name c.text)) <|
    if op.isFinished then Action.stop (.error (.operatorClosed op.name)) else execute lib c

end Retime.Checked
