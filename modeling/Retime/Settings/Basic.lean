import Retime.FileError
import Retime.Json.Basic

/-! # Settings

The clock, whether operators are pipelined, and the delays of the target device.
-/

namespace Retime

/-- Delays of the primitives of a device, in nanoseconds. -/
structure DeviceDelays where
  lut : Float := 0.086
  /-- The fixed part of a ripple-carry adder. -/
  adderBase : Float := 0.691
  carryPerBit : Float := 0.023
  localWire : Float := 0.436
  /-- What a wire loses with every doubling of its readers. -/
  perDoubling : Float := 0.1
  lutInputs : Nat := 6
deriving DecidableEq

structure Settings where
  frequencyMhz : Float := 400
  /-- Otherwise only explicit boundaries between cycles are made. -/
  pipelined : Bool := true
  delays : DeviceDelays := {}
deriving DecidableEq

/-- Why settings cannot be used. -/
inductive SettingsError where
  | unreadable (e : FileError)
  /-- The text does not describe settings. -/
  | malformed
  | frequencyNotPositive (value : Float)
  | delayNegative (name : String) (value : Float)
  | tooFewLutInputs (count : Nat)
deriving DecidableEq

/-- What makes settings unusable; the other causes are about the file. -/
def SettingsError.message : SettingsError → String
  | unreadable e => e.message
  | malformed => "is not a configuration"
  | frequencyNotPositive value =>
    "invalid configuration: frequency_mhz must be positive, got " ++ Layout.message.text value
  | delayNegative name value =>
    s!"invalid configuration: target.{name} must be a non-negative number, got "
      ++ Layout.message.text value
  | tooFewLutInputs count =>
    s!"invalid configuration: target.lut_inputs must be at least 2, got {count}"

/-- The delays under the names by which texts refer to them. -/
def DeviceDelays.named (d : DeviceDelays) : List (String × Float) :=
  [("lut_delay_ns", d.lut), ("adder_base_ns", d.adderBase), ("carry_per_bit_ns", d.carryPerBit),
    ("local_wire_delay_ns", d.localWire), ("fanout_delay_ns", d.perDoubling)]

namespace Settings

/-- The clock period in nanoseconds. -/
def period (s : Settings) : Float :=
  1000 / s.frequencyMhz

/-- Accepts settings with a positive frequency, delays that are not negative and
lookup tables of at least two inputs. -/
def check (s : Settings) : Except SettingsError Unit :=
  if ¬ (s.frequencyMhz.isFinite ∧ 0 < s.frequencyMhz) then
    .error (.frequencyNotPositive s.frequencyMhz)
  else
    match s.delays.named.find? fun (_, x) => ¬ (x.isFinite ∧ 0 ≤ x) with
    | some (name, x) => .error (.delayNegative name x)
    | none =>
      if s.delays.lutInputs < 2 then .error (.tooFewLutInputs s.delays.lutInputs) else .ok ()

def toJson (s : Settings) : Json :=
  .object [("frequency_mhz", .ofFloat s.frequencyMhz), ("pipelined", .bool s.pipelined),
    ("target", .object (s.delays.named.map (fun (name, x) => (name, .ofFloat x))
      ++ [("lut_inputs", .ofNat s.delays.lutInputs)]))]

end Settings

end Retime
