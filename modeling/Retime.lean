import Retime.Decimal.Layout
import Retime.Decimal.Fixed
import Retime.Decimal.Scaled
import Retime.Text.Quoted
import Retime.Text.Lines
import Retime.Json.Parser
import Retime.Json.Printer
import Retime.Digest.Sha256
import Retime.Event
import Retime.Netlist
import Retime.Timeline
import Retime.Dataflow
import Retime.Interface
import Retime.Schedule
import Retime.Library.Generate
import Retime.Library.Batch
import Retime.Library.Chart
import Retime.Kind.Builtin
import Retime.Device
import Retime.Settings.Reader
import Retime.CommandLine.FileTree
import Retime.Main
import Retime.Proofs.Binary64.Order
import Retime.Proofs.Action
import Retime.Proofs.Binary64.Sum
import Retime.Proofs.Timeline.Budget
import Retime.Proofs.Timeline.Arrivals
import Retime.Proofs.Operator.Script
import Retime.Proofs.Operator.Frame
import Retime.Proofs.Timeline.Calls
import Retime.Proofs.Dataflow.Sound
import Retime.Proofs.Dataflow.Resolve
import Retime.Proofs.Dataflow.Registers
import Retime.Proofs.Dataflow.Evolution
import Retime.Proofs.Operator.Requests
import Retime.Proofs.Dataflow.Demand
import Retime.Proofs.Operator.DelayLines
import Retime.Proofs.Operator.Read
import Retime.Proofs.Operator.Consistent
import Retime.Proofs.Rows
import Retime.Proofs.Operator.Instantiate
import Retime.Proofs.Operator.Finish
import Retime.Proofs.Operator.Completed
import Retime.Proofs.Agenda
import Retime.Proofs.Operator.Schedule
import Retime.Proofs.Retiming.Meaning
import Retime.Proofs.Retiming.Equations
import Retime.Proofs.Retiming.Simulation
import Retime.Proofs.Retiming.Preservation
import Retime.Proofs.Verilog.Structure
import Retime.Proofs.Verilog.Blocks
import Retime.Proofs.Verilog.SingleDriver
import Retime.Proofs.Library.Arena
import Retime.Proofs.Operator.Linked
import Retime.Proofs.Library.Builds
import Retime.Proofs.Library.Workshop
import Retime.Proofs.Library.Emission
import Retime.Proofs.Library.Batch
import Retime.Proofs.Library.Agreement
import Retime.Proofs.Library.Permanence
import Retime.Proofs.Library.Latency
import Retime.Proofs.Operator.Arrivals
import Retime.Proofs.Library.Timing
import Retime.Proofs.Library.Cascade
import Retime.Proofs.Library.Stacking
import Retime.Proofs.Operator.Face
import Retime.Proofs.Kind.Names
import Retime.Proofs.Library.Coupling
import Retime.Proofs.Kind.Reuse
import Retime.Proofs.Binary64.Monotone
import Retime.Proofs.Timeline.Work
import Retime.Proofs.Device
import Retime.Proofs.Kind.Progress
import Retime.Proofs.Kind.Work
import Retime.Proofs.Kind.Products
import Retime.Proofs.Kind.Feasible
import Retime.Proofs.Kind.Schedulable
import Retime.Proofs.Timeline.Placement
import Retime.Proofs.Dataflow.Exact
import Retime.Proofs.Operator.Resolution
import Retime.Proofs.Operator.Conservation
import Retime.Proofs.Operator.Exposure
import Retime.Proofs.Operator.Closing
import Retime.Proofs.Timeline.Rising
import Retime.Proofs.Dataflow.Supply
import Retime.Proofs.Operator.Binding
import Retime.Proofs.Operator.Placing
import Retime.Proofs.Operator.Effect
import Retime.Proofs.Operator.Remainder
import Retime.Proofs.Operator.Listed
import Retime.Proofs.Verilog.Reading
import Retime.Proofs.Verilog.Values
import Retime.Proofs.Operator.Settling
import Retime.Proofs.Kind.Values
import Retime.Proofs.Kind.Addition
import Retime.Proofs.Kind.Raking
import Retime.Proofs.Kind.Multiplication
import Retime.Proofs.Kind.Negation
import Retime.Proofs.Kind.Copies
import Retime.Proofs.Operator.Ports
import Retime.Proofs.Verilog.Identifiers
import Retime.Proofs.Verilog.References
import Retime.Proofs.Kind.Texts
import Retime.Proofs.Kind.Selects
import Retime.Proofs.Kind.Wired
import Retime.Proofs.Kind.Described
import Retime.Proofs.Kind.Sums
import Retime.Proofs.Verilog.Legality
import Retime.Proofs.Library.Legality
import Retime.Proofs.Operator.Faults
import Retime.Proofs.Operator.Closed
import Retime.Proofs.Timeline.Peaks
import Retime.Proofs.Operator.Peaks
import Retime.Proofs.Library.Peaks
import Retime.Proofs.Operator.Notes
import Retime.Proofs.Operator.Warnings
import Retime.Proofs.Operator.Counted
import Retime.Proofs.Checked.Steps
import Retime.Proofs.Checked.Engine
import Retime.Proofs.Checked.Dataflow
import Retime.Proofs.Checked.Calls
import Retime.Proofs.Checked.Emission
import Retime.Proofs.Kind.Countable
import Retime.Proofs.Checked.Builds
import Retime.Proofs.Operator.Permanence
import Retime.Proofs.Text.Lines
import Retime.Proofs.Decimal.Characters
import Retime.Proofs.Library.Records
import Retime.Proofs.Library.Chart
import Retime.Proofs.CommandLine.Delivery
import Retime.Proofs.CommandLine.AllOrNothing
import Retime.Proofs.Verilog.Lines
import Retime.Proofs.Verilog.Unambiguous
import Retime.Proofs.Operator.References
import Retime.Proofs.Verilog.Printing
import Retime.Proofs.Library.Wirings
import Retime.Proofs.Kind.Segmentation
