import Retime.Digest.Sha256
import Retime.Json.Printer
import Retime.Library.Emission
import Retime.Verilog.OfOperator

/-! # Batches

A batch holds the text of every committed operator; its manifest sums it up and
identifies the texts by their digests.
-/

namespace Retime

/-- The version of what is written. -/
def version : String := "0.3.0"

/-- The module file of an operator. -/
structure ModuleFile where
  name : String
  text : String
  depth : Nat
  registers : Nat
  sequential : Bool
deriving DecidableEq, Repr

namespace ModuleFile

def fileName (f : ModuleFile) : String :=
  f.name ++ ".v"

def digest (f : ModuleFile) : String :=
  Sha256.hex f.text

def ofOperator (op : Operator) : Except Failure ModuleFile :=
  op.toVerilog.map fun text =>
    { name := op.name
      text
      depth := op.depth?.getD 0
      registers := (op.schedule.map (·.registerCount)).getD 0
      sequential := (op.schedule.map (·.sequential)).getD false }

def toJson (f : ModuleFile) : Json :=
  .object [("name", .string f.name), ("file", .string f.fileName), ("depth", .ofNat f.depth),
    ("registers", .ofNat f.registers), ("sequential", .bool f.sequential),
    ("sha256", .string f.digest)]

end ModuleFile

namespace Library

/-- The module files of all committed operators. -/
def batch (lib : Library) : Except Failure (List ModuleFile) :=
  lib.emission.mapM ModuleFile.ofOperator

/-- The manifest of a batch. -/
def manifest (lib : Library) (files : List ModuleFile) : Json :=
  .object [("manifest_schema_version", .ofNat 1), ("generator_version", .string version),
    ("frequency_mhz", .ofFloat lib.settings.frequencyMhz),
    ("pipelined", .bool lib.settings.pipelined), ("modules", .array (files.map (·.toJson)))]

end Library

end Retime
