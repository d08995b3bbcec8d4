import Retime.Proofs.Kind.Values

/-! # Copies and the values of signals

A copy that is placed leaves the values as they are, and the signals at its outputs have values
too, which its inputs determine. What is known of an operator stays known.
-/

namespace Retime

open Retime.Action Retime.Operator Retime.Dataflow Retime.Verilog

/-- The signal has some value that it can hold. -/
def HasValue (name : String) (width : Nat) : Facts := fun _ nets =>
  ∃ v : Environment → Nat, (∀ env, v env < 2 ^ width) ∧ Valued nets name width v

namespace Operator

variable {op op' : Operator} {F : Facts} {env : Environment} {nets : List Net}

/-- A signal at an output of an instance holds no more than its width. -/
theorem Settled.lt_of_inst (h : Settled env op nets) {s : Signal} {i : Nat} {formal : String}
    (hs : op.flow.netlist.signal? s.id = some s) (hdriver : s.driver = .inst i formal) :
    ∃ v < 2 ^ s.width.bits, Holds nets s.name s.width.bits v := by
  obtain ⟨before, v, -, hv, hat⟩ := h.getElem? hs
  refine ⟨v, ?_, (h.net?_eq hs).trans hat⟩
  simp only [driven?, hdriver, Option.bind_eq_bind, Option.bind_eq_some_iff] at hv
  obtain ⟨inst, -, values, -, hvalue⟩ := hv
  obtain rfl := Option.some.inj hvalue
  exact Nat.mod_lt _ (Nat.two_pow_pos _)

/-- The signals at the outputs of a copy have values. -/
theorem Knows.wp_instantiate (hF : F.Stable) (h : Knows F op) {lib : Library} {sub : Handle}
    {wiring : Wiring} {itf : Interface} (hitf : lib.interface sub = .ok itf)
    (hinputs : ∀ entry ∈ wiring.inputs, ∃ signal, entry.2 = .signal signal)
    (hnames : ∀ entry ∈ wiring.outputs, isName entry.2.toList = true) (name : String) :
    (instantiate lib sub name wiring).wp (fun _ => Knows fun d nets => F d nets ∧
        ∀ p ∈ itf.outputs, ∀ out, wiring.outputs.lookup p.name = some out →
          HasValue out p.width.bits d nets)
      (fun _ _ => True) op := by
  obtain ⟨nets, hsettled, hknown⟩ := h
  let env : Environment := ⟨fun _ => 0, fun _ _ _ => 0⟩
  have hsound := (hsettled env).sound
  refine (wp_instantiate_steps hsound lib sub name wiring).mono ?_ fun _ _ _ => trivial
  rintro - _ ⟨inst, mid, last, hsteps, rfl⟩
  have hplacement := hsteps.placement
  obtain rfl : inst.interface = itf := by
    have hseen := hsteps.interface
    unfold subInterface at hseen
    split at hseen
    · cases hseen
    · exact Except.ok.inj (hseen.symm.trans hitf)
  choose more hmore using fun env => (hsettled env).place hsteps hinputs hnames
  refine ⟨fun env => nets env ++ more env, hmore, ?_, fun p hp out hout => ?_⟩
  · exact hF hsound hplacement.sound hplacement.extends_flow
      (fun env => List.prefix_append _ _) hknown
  · obtain ⟨entry, -, hyields⟩ := exists_right_of_forall₂ hplacement.yields hp
    cases hyields with
    | unbound bound =>
        rw [hout] at bound
        cases bound
    | signal s bound mem role driver cycle_eq width =>
        obtain rfl := Option.some.inj (hout.symm.trans bound)
        choose v hlt hv using fun env => (hmore env).lt_of_inst mem driver
        exact ⟨v, width ▸ hlt, width ▸ hv⟩

end Operator

namespace Build

variable {lib : Library} {h : Handle} {F : Facts}

end Build

end Retime
