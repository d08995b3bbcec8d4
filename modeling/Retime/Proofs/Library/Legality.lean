import Retime.Proofs.Kind.Described
import Retime.Proofs.Kind.Schedulable
import Retime.Proofs.Verilog.Legality

/-! # Legal modules of the built-in kinds

The texts of a design are legal when its output has been declared, and finishing adds none. So
the module of the operator is legal, under whatever libraries it was generated or reused. Only a
multiplier of single bits selects a bit of a word that is a scalar.
-/

namespace Retime

open Retime.Action Operator

namespace Kind.Multiplier

end Kind.Multiplier

namespace Library

variable {lib : Library} {op : Operator} {d : Design} {name : String} {settings : Settings}
  {device : Device} {handle : Handle} {period : Float} {pipelined : Bool} {f : Family}
  {sizes : Sizes}

/-- A design gives its operator such texts. -/
def GivesLegalTexts (d : Design) (lib : Library) (op : Operator) : Prop :=
  (run d).wp (fun _ s => s.operator.schedule = none ∧ s.operator.Ended ∧ s.operator.LegalTexts)
    (fun _ _ => True) ⟨lib, op⟩

theorem givesLegalTexts_of_writes {m : Build Unit} {U V : Operator → Prop}
    (hm : Build.Triple lib op.handle (fun _ => True) (Writes U) m fun _ => Writes V)
    (hV : ∀ op, V op → op.Ended) (hop : Writes U op) : GivesLegalTexts m.design lib op := by
  refine (hm.wp_run rfl hop).mono ?_ fun _ _ _ => trivial
  rintro - s ⟨-, -, hs⟩
  exact ⟨hs.written.unfinished, hV _ hs.holds, hs.written.toLegalTexts⟩

/-- The module shows the signals and copies that were there when the output was declared. -/
theorem module_of_described {Q : Operator → Prop} {op' : Operator}
    (hrun : (run d).wp (fun _ s => s.operator.schedule = none ∧ s.operator.Ended ∧ Q s.operator)
      (fun _ _ => True) ⟨lib, op'⟩)
    (hok : (finishing (run d) ⟨lib, op'⟩).result = .ok ())
    (hface : op.SameFace (finishing (run d) ⟨lib, op'⟩).state.operator) :
    ∃ described delay schedule, Q described ∧
      LaidOut described described.exposure [⟨delay, none⟩] schedule ∧
      op.toModule = .ok (described.moduleOf schedule) := by
  obtain ⟨described, delay, schedule, hQ, hlaid, hfinished⟩ := finished_of_described hrun hok
  rw [hfinished] at hface
  refine ⟨described, delay, schedule, hQ, laidOut hlaid, ?_⟩
  rw [toModule_of_schedule hface.schedule, hface.moduleOf]
  rfl

/-- The module of what was finished is legal. -/
theorem GivesLegalTexts.module {op' : Operator} (h : GivesLegalTexts d lib op')
    (hok : (finishing (run d) ⟨lib, op'⟩).result = .ok ())
    (hface : op.SameFace (finishing (run d) ⟨lib, op'⟩).state.operator) :
    ∃ m, op.toModule = .ok m ∧ m.Legal := by
  obtain ⟨described, delay, schedule, hlegal, hlaid, hm⟩ := module_of_described h hok hface
  exact ⟨_, hm, hlegal.moduleOf_legal hlaid⟩

open Kind in
/-- The texts of the plain kinds are legal, those of a multiplier from two bits on. -/
theorem givesLegalTexts_plain (hsizes : ∀ n ∈ f.parameters sizes, 1 ≤ n) (hf : f ≠ .sumOfProducts)
    (hwide : f = .multiplier → 2 ≤ sizes.width) (device : Device) (lib : Library) :
    GivesLegalTexts ((f.kind sizes).design device) lib (.blank handle name period pipelined) := by
  have hblank := writes_blank handle name period pipelined
  cases f with
  | adder =>
      have hwidth := hsizes sizes.width (by simp [Family.parameters])
      exact givesLegalTexts_of_writes (Adder.writes_build hwidth) (fun _ hop => hop) hblank
  | multiAdder =>
      obtain ⟨m, hm, htriple⟩ := writes_multiAdder sizes.width sizes.count device
      show GivesLegalTexts ((multiAdder sizes.width sizes.count).design device) lib _
      rw [hm]
      exact givesLegalTexts_of_writes htriple (fun _ hop => hop) hblank
  | multiplier =>
      exact givesLegalTexts_of_writes (Multiplier.writes_build (hwide rfl))
        (fun _ hop => hop) hblank
  | sumOfProducts => exact absurd rfl hf
  | floatNegation =>
      have hexponent := hsizes sizes.exponent (by simp [Family.parameters])
      obtain ⟨m, hm, htriple⟩ := writes_floatNegation hexponent device
      show GivesLegalTexts ((floatNegation sizes.exponent sizes.fraction).design device) lib _
      rw [hm]
      exact givesLegalTexts_of_writes htriple (fun _ hop => hop) hblank

/-- The module is legal unless words of one bit are multiplied. -/
theorem Alone.legal (halone : Alone settings device (f.kind sizes) op)
    (hsizes : ∀ n ∈ f.parameters sizes, 1 ≤ n) (hwide : f = .multiplier → 2 ≤ sizes.width) :
    ∃ m, op.toModule = .ok m ∧ m.Legal := by
  by_cases hf : f = .sumOfProducts
  · subst hf
    have hwidth := hsizes sizes.width (by simp [Family.parameters])
    obtain ⟨lib, sub, itf, out, hsub, hitf, -, hdone, hface⟩ := halone.described_sum hwidth
    refine (givesLegalTexts_of_writes (Kind.SumOfProducts.writes_sumCopies device hsub hitf
      sizes.count) (fun _ hop => hop.2) ?_).module hdone hface
    exact ⟨written_blank _ _ _ _, rfl, rfl⟩
  · obtain ⟨lib, -, hdone, hface⟩ := halone.described
    exact (givesLegalTexts_plain hsizes hf hwide device lib).module hdone hface

/-! ## Multipliers of one bit -/

end Library

end Retime
