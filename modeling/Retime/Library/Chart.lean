import Retime.Library.Emission

/-! # Charts

The schedules of a library as a Gantt chart. There is one section for every
operator; the time is the cycle. An assignment takes the cycle it belongs to, and
an instance lasts from the cycle of its inputs to that of its outputs, but at least
one cycle.
-/

namespace Retime

/-- A bar of a chart. -/
structure Task where
  label : String
  start : Nat
  stop : Nat
deriving DecidableEq, Repr

namespace Task

/-- Replaces the marks that separate the parts of a task. -/
def clean (name : String) : String :=
  name.map fun c => if c = ':' ∨ c = '#' ∨ c = ';' then '_' else c

/-- The line of a task. -/
def line (owner : String) (t : Task) (number : Nat) : String :=
  s!"    {t.label} :{owner}_{number}, {t.start}, {t.stop}\n"

def ofAssignment (op : Operator) (cycle : Nat) (a : Assignment) : Task where
  label := clean (op.flow.netlist.name a.target)
  start := cycle
  stop := cycle + 1

def ofInstance (cycle : Nat) (inst : Instance) : Task where
  label := clean inst.name ++ " [" ++ clean inst.interface.name ++ "]"
  start := cycle
  stop := max inst.outputCycle (cycle + 1)

/-- The tasks of one cycle. -/
def ofSlice (op : Operator) (slice : Slice) : List Task :=
  slice.assignments.map (ofAssignment op slice.cycle)
    ++ (slice.instances.filterMap (op.instances[·]?)).map (ofInstance slice.cycle)

end Task

/-- The section of a finished operator. Its tasks are numbered from zero on. -/
def Operator.chartSection (op : Operator) (schedule : Schedule) : String :=
  let tasks := schedule.slices.flatMap (Task.ofSlice op)
  s!"\n    section {op.name} (depth {schedule.depth}, {schedule.registerCount} regs)\n"
    ++ String.join (tasks.mapIdx fun number t => t.line (Task.clean op.name) number)

/-- The chart of all committed operators. -/
def Library.chart (lib : Library) : String :=
  let sections := lib.emission.filterMap fun op => op.schedule.map op.chartSection
  "gantt\n    title Operator schedules ("
    ++ Layout.message.text lib.settings.frequencyMhz ++ " MHz)\n"
    ++ "    dateFormat x\n    axisFormat %Q\n" ++ String.join sections

end Retime
