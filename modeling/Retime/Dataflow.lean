import Std.Data.TreeMap
import Retime.Action
import Retime.Netlist

/-! # Dataflow through time

A value that is read later than it is valid passes through a line of registers.
There is one delay line for every such signal, its root: stage `k` is valid `k`
cycles after the root and holds what the stage before it held one cycle earlier.
Lines grow on demand and are shared by all readers; a stage has no line of its own.
-/

namespace Retime

/-- The registers behind one signal. -/
structure DelayLine where
  /-- What the names of the stages begin with, if not with the name of the root. -/
  stem : Option String := none
  /-- The stages, the shallowest first. -/
  stages : Array SignalId := #[]
  /-- The cycles that the signal was asked for, each with the stage that answers. -/
  answers : Std.TreeMap Nat SignalId := ∅

/-- The signals of an operator and the delay lines behind them. -/
structure Dataflow where
  netlist : Netlist := {}
  lines : Std.TreeMap SignalId DelayLine := ∅

namespace Dataflow

/-- The delay line of a signal, which is empty at first. -/
def line (d : Dataflow) (root : SignalId) : DelayLine :=
  d.lines.getD root {}

def setLine (d : Dataflow) (root : SignalId) (l : DelayLine) : Dataflow :=
  { d with lines := d.lines.insert root l }

/-- Lets the stages of `root` be named after `stem`. -/
def setStem (d : Dataflow) (root : SignalId) (stem : String) : Dataflow :=
  d.setLine root { d.line root with stem := some stem }

def stages (d : Dataflow) (root : SignalId) : Array SignalId :=
  (d.line root).stages

/-- The stages that a signal passes on its way to a cycle it was asked for. -/
def chain? (d : Dataflow) (root : SignalId) (cycle : Nat) : Option (Array SignalId) := do
  let _ ← (d.line root).answers[cycle]?
  let s ← d.netlist.signal? root
  if s.cycle ≤ cycle ∧ cycle - s.cycle ≤ (d.stages root).size then
    some ((d.stages root).take (cycle - s.cycle))
  else none

/-- All signals and cycles that were asked for, in ascending order. -/
def requests (d : Dataflow) : List (SignalId × Nat) :=
  d.lines.toList.flatMap fun (root, l) => l.answers.keys.map fun cycle => (root, cycle)

/-- The number of registers in all lines. -/
def registerCount (d : Dataflow) : Nat :=
  d.lines.toList.foldr (fun (_, l) count => l.stages.size + count) 0

/-- Declares a signal, unless its name is taken. Its id is the number of signals before it, for
which there is no limit. -/
def declare (decl : Declaration) : Action Fault Dataflow SignalId := fun d =>
  if d.netlist.contains decl.name then
    { result := .error (.duplicateSignal decl.name), state := d }
  else
    { result := .ok d.netlist.size, state := { d with netlist := d.netlist.add decl } }

/-- The name of a stage. -/
def stageName (stem : String) (depth : Nat) : String :=
  s!"{stem}_d{depth}"

/-- Appends the stage at `depth` to the line of `root`. -/
def addStage (root : Signal) (stem : String) (depth : Nat) : Action Fault Dataflow Unit := do
  let name := stageName stem depth
  let id ← declare
    { name
      role := .internal
      clocking := root.clocking.stage
      width := root.width
      cycle := root.cycle + depth
      driver := .stage root.id depth }
  Action.report (.stage name root.name (root.cycle + depth))
  Action.modify fun d =>
    let l := d.line root.id
    d.setLine root.id { l with stages := l.stages.push id }

/-- Appends `count` stages, the first of them at `depth`. -/
def addStages (root : Signal) (stem : String) : Nat → Nat → Action Fault Dataflow Unit
  | 0, _ => pure ()
  | count + 1, depth => do
    addStage root stem depth
    addStages root stem count (depth + 1)

/-- The signal that carries the value of `s` in a cycle: `s` itself in its own
cycle, and a stage of its delay line later. Missing stages are appended first. -/
def resolve (s : Signal) (cycle : Nat) : Action Fault Dataflow SignalId := do
  if cycle < s.cycle then
    Action.stop (.backwardReference s.name s.cycle cycle)
  else if cycle = s.cycle then
    return s.id
  else
    let d ← Action.get
    let root := d.netlist.root s
    let line := d.line root.id
    match line.answers[cycle]? with
    | some id => return id
    | none =>
      let gap := cycle - root.cycle
      addStages root (line.stem.getD root.name) (gap - line.stages.size) (line.stages.size + 1)
      let line := (← Action.get).line root.id
      let id := line.stages.getD (gap - 1) s.id
      Action.modify fun d =>
        d.setLine root.id { line with answers := line.answers.insert cycle id }
      return id

end Dataflow

end Retime
