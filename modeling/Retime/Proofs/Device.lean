import Retime.Device
import Retime.Proofs.Binary64.Monotone

/-! # Delays of a device

What the built-in kinds rely on when they ask a device for delays. Devices that are described
by finite delays, none of them negative, have it.
-/

namespace Retime

open Binary64

/-- The logarithm is the least exponent of a power that is not below the number. -/
theorem ceilLog2_le_iff {n k : Nat} : ceilLog2 n ≤ k ↔ n ≤ 2 ^ k := by
  unfold ceilLog2
  split
  next hsmall =>
    have hpos := @Nat.one_le_two_pow k
    omega
  next hlarge =>
    rw [Nat.succ_le_iff, Nat.log2_lt (by omega)]
    omega

theorem le_two_pow_ceilLog2 (n : Nat) : n ≤ 2 ^ ceilLog2 n :=
  ceilLog2_le_iff.mp (Nat.le_refl _)

/-- No delay is negative, and an adder of three bits is not faster than one of two. -/
structure Device.Regular (d : Device) : Prop where
  lut : 0 ≤ d.lutDelay
  adder : ∀ width, 0 ≤ d.adderDelay width
  wire : ∀ readers, 0 ≤ d.wireDelay readers
  adder_mono : d.adderDelay 2 ≤ d.adderDelay 3

/-- Of two adders whose width is a machine word, the wider one is not faster. -/
def Device.Rising (d : Device) : Prop :=
  ∀ m n, m ≤ n → n < UInt32.size → d.adderDelay m ≤ d.adderDelay n

namespace DeviceDelays

variable {delays : DeviceDelays}

/-- All delays are finite, and none is negative. -/
def Proper (delays : DeviceDelays) : Prop :=
  ∀ d ∈ delays.named, d.2.isFinite ∧ 0 ≤ d.2

instance : Decidable delays.Proper :=
  inferInstanceAs (Decidable (∀ d ∈ delays.named, d.2.isFinite ∧ 0 ≤ d.2))

/-- A fixed delay with so many steps added to it. -/
theorem steps_nonneg {base step : Float} (hbase : base.isFinite ∧ 0 ≤ base)
    (hstep : step.isFinite ∧ 0 ≤ step) (n : UInt64) : 0 ≤ base + n.toFloat * step := by
  obtain ⟨hn, hfinite⟩ := nonneg_toFloat n
  exact add_nonneg hbase.2 (mul_nonneg hn hfinite hstep.2 hstep.1)

theorem steps_mono {base step : Float} (hbase : base.isFinite ∧ 0 ≤ base)
    (hstep : step.isFinite ∧ 0 ≤ step) {m n : UInt64} (h : m ≤ n) :
    base + m.toFloat * step ≤ base + n.toFloat * step := by
  obtain ⟨hm, hfinite⟩ := nonneg_toFloat m
  obtain ⟨-, hfinite'⟩ := nonneg_toFloat n
  have hle := mul_le_mul_right hm (toFloat_mono h) hfinite' hstep.2 hstep.1
  exact add_le_add_left hbase.2 (mul_nonneg hm hfinite hstep.2 hstep.1) hle

end DeviceDelays

theorem Device.regular_ofSettings {s : Settings} (h : s.delays.Proper) :
    (Device.ofSettings s).Regular := by
  have hlut := h ("lut_delay_ns", s.delays.lut) (by simp [DeviceDelays.named])
  have hbase := h ("adder_base_ns", s.delays.adderBase) (by simp [DeviceDelays.named])
  have hcarry := h ("carry_per_bit_ns", s.delays.carryPerBit) (by simp [DeviceDelays.named])
  have hwire := h ("local_wire_delay_ns", s.delays.localWire) (by simp [DeviceDelays.named])
  have hfan := h ("fanout_delay_ns", s.delays.perDoubling) (by simp [DeviceDelays.named])
  refine ⟨hlut.2, fun width => ?_, fun readers => ?_, ?_⟩
  · exact DeviceDelays.steps_nonneg hbase hcarry _
  · exact DeviceDelays.steps_nonneg hwire hfan _
  · exact DeviceDelays.steps_mono hbase hcarry (by decide)

theorem Device.rising_ofSettings {s : Settings} (h : s.delays.Proper) :
    (Device.ofSettings s).Rising := by
  intro m n hmn hn
  have hbase := h ("adder_base_ns", s.delays.adderBase) (by simp [DeviceDelays.named])
  have hcarry := h ("carry_per_bit_ns", s.delays.carryPerBit) (by simp [DeviceDelays.named])
  refine DeviceDelays.steps_mono hbase hcarry (UInt64.le_iff_toNat_le.mpr ?_)
  have hword : ∀ w ≤ n, (w - 1).toUInt64.toNat = w - 1 := by
    intro w hw
    have hsize : UInt32.size < 2 ^ 64 := by decide
    rw [Nat.toUInt64, UInt64.toNat_ofNat']
    exact Nat.mod_eq_of_lt (by omega)
  rw [hword m hmn, hword n le_rfl]
  exact Nat.sub_le_sub_right hmn 1

end Retime
