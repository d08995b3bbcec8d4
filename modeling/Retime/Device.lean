import Retime.Settings.Basic

/-! # Devices

The timing of a target device: its clock and how long its primitives take. Kinds
of operators ask the device for every delay they account for.
-/

namespace Retime

structure Device where
  frequencyHz : Float
  /-- Whether work may move to a later cycle on its own account. -/
  pipelined : Bool
  lutDelay : Float
  /-- The delay of a ripple-carry adder, by its width. -/
  adderDelay : Nat → Float
  /-- The delay of a local wire, by the number of its readers. -/
  wireDelay : Nat → Float
  lutInputs : Nat

/-- The least `k` with `n ≤ 2 ^ k`. -/
def ceilLog2 (n : Nat) : Nat :=
  if n ≤ 1 then 0 else Nat.log2 (n - 1) + 1

namespace Device

/-- The clock period in nanoseconds. -/
def period (d : Device) : Float :=
  1e9 / d.frequencyHz

/-- The device that settings describe: carries add up bit by bit, and a wire gets
slower with every doubling of its readers. -/
def ofSettings (s : Settings) : Device where
  frequencyHz := s.frequencyMhz * 1e6
  pipelined := s.pipelined
  lutDelay := s.delays.lut
  adderDelay width :=
    s.delays.adderBase + (width - 1).toUInt64.toFloat * s.delays.carryPerBit
  wireDelay readers :=
    s.delays.localWire + (ceilLog2 readers).toUInt64.toFloat * s.delays.perDoubling
  lutInputs := s.delays.lutInputs

end Device

end Retime
