import Mathlib.Order.Bounds.Basic
import Retime.Proofs.Kind.Feasible

/-! # The size of the segments of an adder

An adder is cut into segments of the largest size whose adder fits the period with a carry bit on
either end. The search for this size looks one bit ahead, and what it has seen to fit is what the
design accrues for a segment later on.
-/

namespace Retime

open Binary64

/-! ## What designs accrue -/

/-- Whatever the calls answer, these delays are accrued for the operator, in this order. -/
inductive Design.Accrues : Design → List Float → Prop where
  | done : Accrues .done []
  | accrue (delay : Float) {next : Option String → Design} {delays : List Float}
      (h : ∀ answer, Accrues (next answer) delays) :
      Accrues (.call (.accrue delay) next) (delay :: delays)
  | call {c : Call} (hc : ∀ delay, c ≠ .accrue delay) {next : Option String → Design}
      {delays : List Float} (h : ∀ answer, Accrues (next answer) delays) :
      Accrues (.call c next) delays
  | generate (name : String) (body : Design) {next : Handle → Design} {delays : List Float}
      (h : ∀ handle, Accrues (next handle) delays) : Accrues (.generate name body next) delays
  | lookup (name : String) {next : Option Handle → Design} {delays : List Float}
      (h : ∀ handle, Accrues (next handle) delays) : Accrues (.lookup name next) delays

namespace Build

variable {α β : Type} {m : Build α} {f : α → Build β} {c : Call} {delays delays' : List Float}

/-- A piece accrues these delays before it goes on. -/
def Accrues (m : Build α) (delays : List Float) : Prop :=
  ∀ (next : α → Design) (rest : List Float), (∀ a, (next a).Accrues rest) →
    (m next).Accrues (delays ++ rest)

theorem accrues_pure (a : α) : Accrues (pure a) [] :=
  fun _ _ hnext => hnext a

theorem Accrues.bind (hm : m.Accrues delays) (hf : ∀ a, (f a).Accrues delays') :
    (m >>= f).Accrues (delays ++ delays') := by
  intro next rest hnext
  rw [List.append_assoc]
  exact hm _ _ fun a => hf a next rest hnext

theorem accrues_call (hc : ∀ delay, c ≠ .accrue delay) : (call c).Accrues [] :=
  fun _ _ hnext => .call hc fun _ => hnext ()

theorem accrues_accrue (delay : Float) : (accrue delay).Accrues [delay] :=
  fun _ _ hnext => .accrue delay fun _ => hnext ()

theorem accrues_consume (name : String) : (consume name).Accrues [] :=
  fun _ _ hnext => .call (by simp) fun _ => hnext _

theorem accrues_forEach {g : α → List Float} (hf : ∀ a, (f a).Accrues (g a)) (items : List α) :
    (forEach f items).Accrues (items.flatMap g) := by
  induction items with
  | nil => exact accrues_pure _
  | cons a items ih =>
      rw [List.flatMap_cons, ← List.append_nil (items.flatMap g)]
      exact (hf a).bind fun b => ih.bind fun bs => accrues_pure _

theorem Accrues.design {m : Build Unit} (hm : m.Accrues delays) : m.design.Accrues delays := by
  rw [← List.append_nil delays]
  exact hm _ [] fun _ => .done

end Build

/-! ## Adders -/

namespace Kind.Adder

open Build

variable {device : Device} {width size : Nat}

theorem accrues_inputs (width : Nat) : (inputs width).Accrues [] :=
  (accrues_call (by simp)).bind fun _ => accrues_call (by simp)

theorem accrues_whole (device : Device) (width : Nat) :
    (whole device width).Accrues [device.adderDelay width] :=
  (accrues_accrue _).bind fun _ => (accrues_consume "X").bind fun _ =>
    (accrues_consume "Y").bind fun _ => accrues_call (by simp)

theorem accrues_carryInto (size i : Nat) : (carryInto size i).Accrues [] := by
  cases i with
  | zero => exact accrues_pure _
  | succ i => exact (accrues_consume _).bind fun _ => accrues_pure _

theorem accrues_addSegment (device : Device) (width size i : Nat) :
    (addSegment device width size i).Accrues [segmentWork device width size i] :=
  (accrues_accrue _).bind fun _ => (accrues_consume "X").bind fun _ =>
    (accrues_consume "Y").bind fun _ => (accrues_carryInto size i).bind fun _ =>
      accrues_call (by simp)

/-- Every segment is accrued, the last one included. -/
theorem accrues_segmented (device : Device) (width size : Nat) :
    (segmented device width size).Accrues
      ((List.range (Segment.count width size)).map (segmentWork device width size)) := by
  have hsegments := accrues_forEach (accrues_addSegment device width size)
    (List.range (Segment.count width size))
  have hparts : ∀ indices, (forEach (sumOf width size) indices).Accrues [] := by
    intro indices
    have hnone : ∀ i, (sumOf width size i).Accrues [] := fun i =>
      (accrues_consume _).bind fun _ => accrues_pure _
    have hall := accrues_forEach hnone indices
    rwa [List.flatMap_eq_nil_iff.mpr fun _ _ => rfl] at hall
  rw [← List.map_eq_flatMap] at hsegments
  rw [← List.append_nil (List.map _ _)]
  exact hsegments.bind fun _ => (hparts _).bind fun _ => accrues_call (by simp)

theorem accrues_build (width : Nat) (device : Device) :
    (build width device).Accrues (work width device) := by
  unfold work
  dsimp only
  rw [← List.nil_append (ite _ _ _)]
  refine (accrues_inputs width).bind fun _ => ?_
  dsimp only
  split
  · exact accrues_whole device width
  · exact accrues_segmented device width (segmentSize device width)

/-! ## Sizes -/

theorem grow_le (h : size ≤ width) : grow device width size ≤ width := by
  fun_induction grow device width size with
  | case1 size hgrow ih => exact ih hgrow.1
  | case2 size hstop => exact h

/-- Segments grow until the word ends or one more bit would not fit. -/
theorem grow_stops (device : Device) (h : size ≤ width) : grow device width size = width ∨
    ¬ device.adderDelay (grow device width size + 2) ≤ device.period := by
  fun_induction grow device width size with
  | case1 size hgrow ih => exact ih hgrow.1
  | case2 size hstop =>
      rcases Nat.eq_or_lt_of_le h with hend | hmore
      · exact .inl hend
      · exact .inr fun hfits => hstop ⟨hmore, hfits⟩

/-- What is known of the size of the segments on a pipelined device. -/
structure Largest (device : Device) (width size : Nat) : Prop where
  fits : size = 1 ∨ device.adderDelay (size + 1) ≤ device.period
  stops : size = width ∨ ¬ device.adderDelay (size + 2) ≤ device.period
  /-- What does not fit a period that is a number exceeds it. -/
  exceeds : device.period.isNaN = false →
    size = width ∨ device.period < device.adderDelay (size + 2)
  greatest : IsGreatest {n | 1 ≤ n ∧ n ≤ width ∧ device.adderDelay (n + 1) ≤ device.period} size ∨
    size = 1 ∧ ∀ n, 1 ≤ n → n ≤ width → ¬ device.adderDelay (n + 1) ≤ device.period
  /-- The work is that of all segments, the shorter last one included. -/
  accrued : device.adderDelay 2 ≤ device.period → ∀ x ∈ work width device, x ≤ device.period

theorem largest_segmentSize (hrising : device.Rising) (hpipelined : device.pipelined = true)
    (hwidth : 1 ≤ width) (hword : width + 2 < UInt32.size) :
    Largest device width (segmentSize device width) := by
  rw [segmentSize, if_pos hpipelined]
  have hpos := (grow_spec device width 1).1
  have hle : grow device width 1 ≤ width := grow_le hwidth
  have hstops := grow_stops device hwidth
  have hfits : grow device width 1 = 1 ∨
      device.adderDelay (grow device width 1 + 1) ≤ device.period := by
    rcases Nat.eq_or_lt_of_le hpos with hone | hmore
    · exact .inl hone.symm
    · exact .inr (adderDelay_le device hmore (Nat.le_refl _))
  -- what is longer than the segments does not fit if it is within the word
  have hlonger : ∀ n ≤ width, device.adderDelay (n + 1) ≤ device.period →
      n ≤ grow device width 1 := by
    intro n hn hfit
    by_contra hlt
    rcases hstops with hend | hstop
    · omega
    · exact hstop (le_trans (hrising _ _ (by omega) (by omega)) hfit)
  refine ⟨hfits, hstops, fun hperiod => ?_, ?_, fun htwo => ?_⟩
  · refine hstops.imp_right fun hstop => ?_
    exact lt_of_not_le (hrising _ _ le_rfl (by omega)) (le_refl_of_isNaN hperiod) hstop
  · by_cases hfit : device.adderDelay (grow device width 1 + 1) ≤ device.period
    · exact .inl ⟨⟨hpos, hle, hfit⟩, fun n hn => hlonger n hn.2.1 hn.2.2⟩
    · have hone := hfits.resolve_right hfit
      rw [hone] at hfit
      refine .inr ⟨hone, fun n hn hn' hfit' => hfit ?_⟩
      exact le_trans (hrising _ _ (by omega) (by omega)) hfit'
  · refine (fits_iff (hrising 2 3 (by decide) (by decide)) hpipelined hwidth).mp ?_
    exact le_trans (hrising _ _ (Nat.min_le_right _ _) (by decide)) htwo

/-- The search for the size of the segments comes to an end within the word, and on a device that
is not pipelined at the end of it. On a pipelined device the size is the largest that fits the
period with a carry bit, or one bit if none does; and if two bits fit, then all that the design
accrues fits. -/
theorem segments_are_largest (device : Device) (width : Nat) (hrising : device.Rising)
    (hwidth : 1 ≤ width) (hword : width + 2 < UInt32.size) :
    let size := segmentSize device width
    1 ≤ size ∧ size ≤ width ∧ (device.pipelined = false → size = width) ∧
      (device.pipelined = true → Largest device width size) ∧
      ((adder width).design device).Accrues (work width device) := by
  refine ⟨segmentSize_pos device hwidth, ?_, fun hsimple => ?_, fun hpipelined => ?_, ?_⟩
  · unfold segmentSize
    split
    · exact grow_le hwidth
    · exact Nat.le_refl width
  · rw [segmentSize, if_neg (by simp [hsimple])]
  · exact largest_segmentSize hrising hpipelined hwidth hword
  · exact (accrues_build width device).design

/-- At the default frequency, segments have 78 bits. -/
theorem segments_of_defaults :
    let device := Device.ofSettings {}
    device.Rising ∧ 1 ≤ 128 ∧ 128 + 2 < UInt32.size ∧ segmentSize device 128 = 78 := by
  intro device
  have hrising : device.Rising := Device.rising_ofSettings (by decide)
  obtain ⟨-, -, -, hlargest, -⟩ := segments_are_largest device 128 hrising (by decide) (by decide)
  have hfits : device.adderDelay (78 + 1) ≤ device.period := by decide
  have hstop : ¬ device.adderDelay (79 + 1) ≤ device.period := by decide
  refine ⟨hrising, by decide, by decide, ?_⟩
  rcases (hlargest rfl).greatest with ⟨⟨-, hle, hfit⟩, hgreatest⟩ | ⟨-, hnone⟩
  · refine Nat.le_antisymm (Nat.le_of_not_lt fun hlt => hstop ?_)
      (hgreatest ⟨by decide, by decide, hfits⟩)
    have hword : 129 < UInt32.size := by decide
    exact le_trans (hrising _ _ (by omega) (by omega)) hfit
  · exact absurd hfits (hnone 78 (by decide) (by decide))

/-- Without a period to compare with, segments are single bits, and no delay exceeds it. -/
theorem segments_without_period :
    let device := Device.ofSettings { frequencyMhz := 0 / 0 }
    device.Rising ∧ device.pipelined = true ∧ segmentSize device 2 = 1 ∧
      ¬ (segmentSize device 2 = 2 ∨
        device.period < device.adderDelay (segmentSize device 2 + 2)) := by
  intro device
  have hsize : segmentSize device 2 = 1 := by
    have hstop : ¬ device.adderDelay 3 ≤ device.period := by decide
    have hpipelined : device.pipelined = true := rfl
    rw [segmentSize, if_pos hpipelined, grow, if_neg fun h => hstop h.2]
  refine ⟨Device.rising_ofSettings (by decide), rfl, hsize, ?_⟩
  rw [hsize]
  decide

end Kind.Adder

end Retime
