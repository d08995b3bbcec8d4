import Retime.Operator.Basic
import Retime.Verilog.Expr
import Retime.Verilog.Text

/-! # Operators as modules

A finished operator is written as one module: a wire for every internal signal and
a register for every stage, then the assignments and instances cycle by cycle, then
one block of register updates for each clocking.
-/

namespace Retime

open Verilog

/-- Clock and reset. -/
def controlPorts : List String :=
  ["clk", "rst"]

namespace Operator

/-- The name that a signal is written with. -/
def signalName (op : Operator) (id : SignalId) : String :=
  op.flow.netlist.name id

/-- A signal as a port of the module. -/
def portDeclaration? (op : Operator) (direction : Direction) (id : SignalId) :
    Option PortDeclaration :=
  (op.flow.netlist.signal? id).map fun s =>
    { direction, width := s.width.bits, name := s.name }

/-- The ports of the module; clock and reset come first if it needs them. -/
def portDeclarations (op : Operator) (sequential : Bool) : List PortDeclaration :=
  (if sequential then controlPorts.map fun name => ⟨.input, 1, name⟩ else [])
    ++ op.inputs.toList.filterMap (op.portDeclaration? .input)
    ++ op.outputs.toList.filterMap fun out => op.portDeclaration? .output out.signal

/-- The internal signals. -/
def netDeclarations (op : Operator) : List NetDeclaration :=
  (op.flow.netlist.signals.toList.filter (·.role = .internal)).map fun s =>
    { kind := if s.isStage then .reg else .wire, width := s.width.bits, name := s.name }

def assign (op : Operator) (a : Assignment) : Assign where
  target := op.signalName a.target
  value :=
    match a.value with
    | .expr text => text
    | .signal id => op.signalName id

/-- An instance with the connections of all its ports. -/
def copy (op : Operator) (inst : Instance) : Copy where
  moduleName := inst.interface.name
  name := inst.name
  connections :=
    (if inst.interface.sequential then controlPorts.map fun name => (name, some name) else [])
      ++ inst.inputs.map (fun (formal, actual) =>
        (formal, some (match actual with
          | .signal id => op.signalName id
          | .constant text => text)))
      ++ inst.outputs.map fun (formal, signal) => (formal, signal.map op.signalName)

/-- What happens in one cycle, if anything does. -/
def sliceItem? (op : Operator) (slice : Slice) : Option Item :=
  let assigns := if slice.assignments.isEmpty then []
    else [Item.assigns (slice.assignments.map op.assign)]
  let copies := (slice.instances.filterMap (op.instances[·]?)).map fun inst =>
    Item.copy (op.copy inst)
  let items := assigns ++ copies
  if items.isEmpty then none else some (.commented s!"cycle {slice.cycle}" items)

def update (op : Operator) (l : Load) : Statement :=
  .nonblocking (op.signalName l.target) (op.signalName l.source)

/-- The assignment that resets a register. -/
def reset (op : Operator) (l : Load) : Statement :=
  let width := ((op.flow.netlist.signal? l.target).map (·.width.bits)).getD 0
  .nonblocking (op.signalName l.target) (Expr.zero width).text

/-- The block that updates registers of one clocking. -/
def registerBlock (op : Operator) (clocking : Clocking) (loads : List Load) : Item :=
  let updates := loads.map op.update
  let guarded := [.conditional "rst" (loads.map op.reset) updates]
  match clocking with
  | .combinational | .registered => .always "always @(posedge clk)" updates
  | .asyncReset => .always "always @(posedge clk or posedge rst)" guarded
  | .syncReset => .always "always @(posedge clk)" guarded

/-- A block for every clocking that occurs. -/
def registerBlocks (op : Operator) (loads : List Load) : List Item :=
  [Clocking.combinational, .registered, .asyncReset, .syncReset].filterMap fun clocking =>
    let own := loads.filter (·.clocking = clocking)
    if own.isEmpty then none else some (op.registerBlock clocking own)

/-- The module of an operator with that schedule. -/
def moduleOf (op : Operator) (schedule : Schedule) : Module where
  name := op.name
  ports := op.portDeclarations schedule.sequential
  items :=
    (if op.netDeclarations.isEmpty then [] else [.nets op.netDeclarations])
      ++ schedule.slices.filterMap op.sliceItem?
      ++ op.registerBlocks schedule.loads

/-- The module of a finished operator. -/
def toModule (op : Operator) : Except Failure Module :=
  match op.schedule with
  | some schedule => .ok (op.moduleOf schedule)
  | none => .error ⟨op.name, "to_module()", .unfinishedSubOperator op.name⟩

/-- The text of a finished operator. -/
def toVerilog (op : Operator) : Except Failure String :=
  op.toModule.map (·.text)

end Operator

end Retime
