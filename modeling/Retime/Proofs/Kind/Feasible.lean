import Retime.Proofs.Device
import Retime.Proofs.Kind.Names
import Retime.Proofs.Kind.Products

/-! # Feasible kinds

A built-in kind fits a pipelined device if every piece of its work fits the clock period. Since
an adder chooses its segments by what fits, the pieces that matter are few: those below are
enough.
-/

namespace Retime

open Binary64 Kind

/-! ## Segments -/

namespace Segment

variable {width size i : Nat}

theorem count_pos (hwidth : 1 ≤ width) (hsize : 1 ≤ size) : 1 ≤ count width size :=
  (Nat.one_le_div_iff hsize).mpr (by omega)

theorem count_le (hsize : 1 ≤ size) : count width size ≤ width := by
  unfold count
  rcases Nat.eq_zero_or_pos width with rfl | hwidth
  · exact Nat.le_of_eq (Nat.div_eq_of_lt (by omega))
  · refine Nat.div_le_of_le_mul ?_
    obtain ⟨w, rfl⟩ := Nat.exists_eq_add_of_le hwidth
    obtain ⟨s, rfl⟩ := Nat.exists_eq_add_of_le hsize
    ring_nf
    omega

/-- No segment is empty. -/
theorem size_nth_pos (hsize : 1 ≤ size) (hi : i < count width size) :
    1 ≤ (nth width size i).size := by
  have hmul : (i + 1) * size ≤ width + size - 1 := (Nat.le_div_iff_mul_le hsize).mp hi
  have hlow : (i + 1) * size = i * size + size := by ring
  show 1 ≤ min size (width - i * size)
  omega

theorem size_nth_le : (nth width size i).size ≤ size :=
  Nat.min_le_left _ _

end Segment

/-! ## Adders -/

namespace Kind.Adder

variable {device : Device} {width size : Nat}

/-- Segments only grow to sizes whose adders fit the period. -/
theorem grow_spec (device : Device) (width size : Nat) : size ≤ grow device width size ∧
    ∀ j, size ≤ j → j < grow device width size → device.adderDelay (j + 2) ≤ device.period := by
  fun_induction grow device width size with
  | case1 size hgrow ih =>
      obtain ⟨hle, hfits⟩ := ih
      refine ⟨Nat.le_of_succ_le hle, fun j hj hlt => ?_⟩
      rcases Nat.eq_or_lt_of_le hj with rfl | hj
      · exact hgrow.2
      · exact hfits j hj hlt
  | case2 size hstop => exact ⟨Nat.le_refl size, fun j hj hlt => by omega⟩

theorem segmentSize_pos (device : Device) (hwidth : 1 ≤ width) : 0 < segmentSize device width := by
  unfold segmentSize
  split
  · exact (grow_spec device width 1).1
  · exact hwidth

variable (device) in
/-- The adders of all segments that are longer than one bit fit the period. -/
theorem adderDelay_le {n : Nat} (hn : 2 ≤ n) (hle : n ≤ grow device width 1) :
    device.adderDelay (n + 1) ≤ device.period := by
  have hfits := (grow_spec device width 1).2 (n - 1) (by omega) (by omega)
  have hsame : n - 1 + 2 = n + 1 := by omega
  rwa [hsame] at hfits

section Mono

variable (hmono : device.adderDelay 2 ≤ device.adderDelay 3)
include hmono

/-- If an adder of three bits fits the period, so does one of two. -/
theorem adderDelay_two_le (hgrown : 2 ≤ grow device width 1) :
    device.adderDelay 2 ≤ device.period :=
  le_trans hmono (adderDelay_le device (Nat.le_refl 2) hgrown)

/-- The work on a whole word fits the period if and only if an adder of two bits, or of one if
there is no more, does. -/
theorem whole_fits_iff (hwidth : 1 ≤ width) (hwhole : width ≤ grow device width 1) :
    device.adderDelay (min width 2) ≤ device.period ↔
      device.adderDelay width ≤ device.period := by
  rcases Nat.lt_or_ge 2 width with hwide | hnarrow
  · rw [Nat.min_eq_right (Nat.le_of_lt hwide)]
    have hle : width - 1 ≤ grow device width 1 := Nat.le_trans (Nat.sub_le width 1) hwhole
    have hlong := adderDelay_le device (Nat.le_sub_one_of_lt hwide) hle
    rw [Nat.sub_add_cancel hwidth] at hlong
    exact ⟨fun _ => hlong, fun _ => adderDelay_two_le hmono (Nat.le_of_lt (hwide.trans_le hwhole))⟩
  · rw [Nat.min_eq_left hnarrow]

/-- The work on segments fits the period if and only if an adder of two bits does. -/
theorem segments_fit_iff (hsegmented : grow device width 1 < width) :
    device.adderDelay 2 ≤ device.period ↔
      ∀ i < Segment.count width (grow device width 1),
        segmentWork device width (grow device width 1) i ≤ device.period := by
  obtain ⟨hsize, -⟩ := grow_spec device width 1
  constructor
  · intro htwo i hi
    have hpos := Segment.size_nth_pos hsize hi
    have hle : (Segment.nth width (grow device width 1) i).size ≤ grow device width 1 :=
      Segment.size_nth_le
    unfold segmentWork
    rcases Nat.eq_or_lt_of_le hpos with hone | hmore
    · rwa [← hone]
    · exact adderDelay_le device hmore hle
  · intro hfits
    rcases Nat.eq_or_lt_of_le hsize with hone | hmore
    · have hfirst := hfits 0 (Segment.count_pos (by omega) hsize)
      rwa [segmentWork, Segment.nth, ← hone, Nat.zero_mul, Nat.sub_zero,
        Nat.min_eq_left (by omega)] at hfirst
    · exact adderDelay_two_le hmono hmore

theorem fits_iff (hpipelined : device.pipelined = true) (hwidth : 1 ≤ width) :
    device.adderDelay (min width 2) ≤ device.period ↔
      ∀ x ∈ work width device, x ≤ device.period := by
  have hsize : segmentSize device width = grow device width 1 := by
    rw [segmentSize, if_pos hpipelined]
  unfold work
  rw [hsize]
  dsimp only
  split
  next hwhole =>
    rw [whole_fits_iff hmono hwidth hwhole]
    simp
  next hsegmented =>
    have hone := (grow_spec device width 1).1
    rw [Nat.min_eq_right (by omega), segments_fit_iff hmono (Nat.lt_of_not_le hsegmented)]
    simp

end Mono

end Kind.Adder

/-! ## All families -/

namespace Family

variable {device : Device} {sizes : Sizes}

/-- The work of a kind, piece by piece. The pieces of a sum of products start with those of its
multiplier. -/
def work (device : Device) (sizes : Sizes) : Family → List Float
  | .adder => Adder.work sizes.width device
  | .multiAdder => (MultiAdder.rake sizes.width).work device sizes.count
  | .multiplier => Multiplier.work sizes.width device
  | .sumOfProducts => Multiplier.work sizes.width device ++
      (SumOfProducts.rake sizes.width sizes.count).work device sizes.count
  | .floatNegation => [device.lutDelay]

/-- What has to fit the clock period in a multiplier. -/
def MultiplierFits (device : Device) (width : Nat) : Prop :=
  let parts := Multiplier.parts width device
  device.wireDelay parts + device.lutDelay ≤ device.period ∧
    (parts = 1 ∨ device.adderDelay (2 * width) ≤ device.period)

/-- What has to fit the clock period. -/
def Feasible (device : Device) (sizes : Sizes) : Family → Prop
  | .adder => device.adderDelay (min sizes.width 2) ≤ device.period
  | .multiAdder => sizes.count = 1 ∨ device.adderDelay sizes.width ≤ device.period
  | .multiplier => MultiplierFits device sizes.width
  | .sumOfProducts => MultiplierFits device sizes.width ∧ (sizes.count = 1 ∨
      device.adderDelay (2 * sizes.width + ceilLog2 sizes.count) ≤ device.period)
  | .floatNegation => device.lutDelay ≤ device.period

theorem rake_nonneg (hregular : device.Regular) (r : Rake) (count : Nat) :
    ∀ x ∈ r.work device count, 0 ≤ x := by
  intro x hx
  rw [List.eq_of_mem_replicate hx]
  exact hregular.adder r.width

theorem rake_fits_iff (r : Rake) {count : Nat} (hcount : 1 ≤ count) :
    (count = 1 ∨ device.adderDelay r.width ≤ device.period) ↔
      ∀ x ∈ r.work device count, x ≤ device.period := by
  unfold Rake.work
  simp only [List.mem_replicate, and_imp]
  constructor
  · rintro (rfl | hfits) x hne rfl
    · exact absurd rfl hne
    · exact hfits
  · intro hfits
    rcases Nat.eq_or_lt_of_le hcount with hone | hmore
    · exact .inl hone.symm
    · exact .inr (hfits _ (by omega) rfl)

theorem multiplierFits_iff {width : Nat} (hparts : 1 ≤ Multiplier.parts width device) :
    MultiplierFits device width ↔ ∀ x ∈ Multiplier.work width device, x ≤ device.period := by
  unfold Multiplier.work
  rw [List.forall_mem_cons, ← rake_fits_iff _ hparts]
  rfl

theorem parts_pos {width : Nat} (hwidth : 1 ≤ width) (device : Device) :
    1 ≤ Multiplier.parts width device :=
  Segment.count_pos hwidth (Nat.le_max_right _ 1)

theorem multiplier_nonneg (hregular : device.Regular) (width : Nat) :
    ∀ x ∈ Multiplier.work width device, 0 ≤ x := by
  unfold Multiplier.work
  rw [List.forall_mem_cons]
  exact ⟨add_nonneg (hregular.wire _) hregular.lut, rake_nonneg hregular _ _⟩

theorem work_nonneg (hregular : device.Regular) (sizes : Sizes) (f : Family) :
    ∀ x ∈ f.work device sizes, 0 ≤ x := by
  cases f with
  | adder =>
      intro x hx
      unfold work Adder.work at hx
      dsimp only at hx
      split at hx
      · exact List.mem_singleton.mp hx ▸ hregular.adder _
      · obtain ⟨i, -, rfl⟩ := List.mem_map.mp hx
        exact hregular.adder _
  | multiAdder => exact rake_nonneg hregular _ _
  | multiplier => exact multiplier_nonneg hregular _
  | sumOfProducts =>
      intro x hx
      rcases List.mem_append.mp hx with hx | hx
      · exact multiplier_nonneg hregular _ x hx
      · exact rake_nonneg hregular _ _ x hx
  | floatNegation => exact fun x hx => List.mem_singleton.mp hx ▸ hregular.lut

/-- A kind is feasible if and only if each piece of its work fits the period. -/
theorem feasible_iff (hregular : device.Regular) (hpipelined : device.pipelined = true)
    {f : Family} (hsizes : ∀ n ∈ f.parameters sizes, 1 ≤ n) :
    f.Feasible device sizes ↔ ∀ x ∈ f.work device sizes, x ≤ device.period := by
  unfold Feasible work
  cases f with
  | adder =>
      exact Adder.fits_iff hregular.adder_mono hpipelined (hsizes sizes.width (by simp [parameters]))
  | multiAdder =>
      exact rake_fits_iff (MultiAdder.rake sizes.width) (hsizes sizes.count (by simp [parameters]))
  | multiplier =>
      exact multiplierFits_iff (parts_pos (hsizes sizes.width (by simp [parameters])) device)
  | sumOfProducts =>
      have hparts := parts_pos (hsizes sizes.width (by simp [parameters])) device
      have hcount := hsizes sizes.count (by simp [parameters])
      dsimp only
      rw [List.forall_mem_append, ← multiplierFits_iff hparts, ← rake_fits_iff _ hcount]
      rfl
  | floatNegation => simp

/-- A kind has no more pieces of work than its parameters add up to. -/
theorem length_work_le {f : Family} (hsizes : ∀ n ∈ f.parameters sizes, 1 ≤ n) (device : Device) :
    (f.work device sizes).length ≤ (f.parameters sizes).sum := by
  have hparts : Multiplier.parts sizes.width device ≤ sizes.width :=
    Segment.count_le (Nat.le_max_right _ 1)
  cases f with
  | adder =>
      have hwidth := hsizes sizes.width (by simp [parameters])
      have hsize : 1 ≤ Adder.segmentSize device sizes.width := Adder.segmentSize_pos device hwidth
      have hcount : Segment.count sizes.width _ ≤ sizes.width := Segment.count_le hsize
      unfold work Adder.work
      dsimp only
      split
      · simpa [parameters] using hwidth
      · simpa [parameters] using hcount
  | multiAdder =>
      simp only [work, Rake.work, List.length_replicate, parameters, List.sum_cons, List.sum_nil]
      omega
  | multiplier =>
      have hwidth := hsizes sizes.width (by simp [parameters])
      simp only [work, Multiplier.work, Rake.work, List.length_cons, List.length_replicate, parameters,
        List.sum_cons, List.sum_nil]
      omega
  | sumOfProducts =>
      have hwidth := hsizes sizes.width (by simp [parameters])
      have hcount := hsizes sizes.count (by simp [parameters])
      simp only [work, Multiplier.work, Rake.work, List.length_append, List.length_cons,
        List.length_replicate, parameters, List.sum_cons, List.sum_nil]
      omega
  | floatNegation =>
      have hexponent := hsizes sizes.exponent (by simp [parameters])
      simp only [work, List.length_singleton, parameters, List.sum_cons, List.sum_nil]
      omega

end Family

end Retime
