import Retime.Proofs.Retiming.Simulation

/-! # Retiming preserves meaning

Every behaviour of a finished operator shows what its description means: each signal in the
cycle in which it is valid, each stage of a delay line what its root means, and each output
in the last cycle.
-/

namespace Retime

open Operator

variable {V : Type} {I : Interpretation V} {fin op : Operator} {x w : String → Nat → V}
  {t : Nat} {env : String → V} {granted : List (Nat × String)}

/-! ## One call -/

theorem Simulates.step (h : Simulates I w t op env granted) (hfin : Equations I fin x w)
    (hop : op.Consistent) {entry : Library × Call} (hsucceeds : op.Succeeds entry)
    (hpersists : (op.step entry).Persists fin)
    (hreads : ∀ text ∈ entry.2.expr?, ∀ identifier ∈ I.reads text,
      (op.timeline.cycle, identifier) ∈ granted) :
    Simulates I w t (op.step entry)
      (op.callMeaning I (fun name cycle => x name (t + cycle)) entry env)
      ((op.identifier? entry.2).toList.map (op.timeline.cycle, ·) ++ granted) := by
  have hperformed := performed_of_succeeds hop.sound hsucceeds
  have hstep := hperformed.persists
  obtain ⟨lib, c⟩ := entry
  -- the equations are those of the operator at the end, in which all signals persist
  cases hperformed with
  | input name width declares inputs outputs =>
      have hin : fin.flow.netlist.signal? op.flow.netlist.size =
          some ⟨op.declared name .input .combinational width .port, op.flow.netlist.size⟩ := by
        apply hpersists.flow.netlist _ _
        rw [declares.flow]
        exact Netlist.signal?_add_size _
      refine h.declare declares hop.flow (fun _ => ?_) (by simp [declared])
      exact (hfin.input (s := ⟨_, op.flow.netlist.size⟩) hin rfl _).symm
  | declare name width clocking text declares inputs outputs =>
      have hin : fin.flow.netlist.signal? op.flow.netlist.size =
          some ⟨op.declared name .internal clocking width (.expr text),
            op.flow.netlist.size⟩ := by
        apply hpersists.flow.netlist _ _
        rw [declares.flow]
        exact Netlist.signal?_add_size _
      refine h.declare declares hop.flow (fun _ => ?_) (by simp [declared])
      rw [h.expr_eq (hreads text rfl)]
      exact (hfin.expr (s := ⟨_, op.flow.netlist.size⟩) hin rfl rfl _).symm
  | output name width text declares inputs outputs =>
      refine h.declare declares hop.flow (fun hrole => absurd rfl hrole) ?_
      intro _ text' hdriver
      cases hdriver
      exact h.expr_eq (hreads text rfl)
  | consume name id lengthened reads answer =>
      simp only [callMeaning, identifier?, answer]
      exact h.consume hfin lengthened hpersists reads
  | consumeField name field id lengthened reads answer =>
      simp only [callMeaning, identifier?, answer]
      exact h.consume hfin lengthened hpersists reads
  | timeline moves moved =>
      have hextend := h.extend hstep (fun _ => rfl) fun {s} hs => .inl (moved.flow ▸ hs)
      cases moves <;> exact hextend
  | instantiate sub name wiring inst placement =>
      simp only [callMeaning, placement.interface]
      exact h.instantiate hfin hstep placement hpersists
  | finish schedule exposed finished =>
      exact h.finish hfin hop hstep finished hpersists

/-! ## All calls -/

theorem Simulates.after (h : Simulates I w t op env granted) (hop : op.Consistent)
    {script : Script} (hfin : Equations I (op.after script) x w)
    (hcompletes : op.Completes script) (hdisciplined : op.Disciplined I script granted) :
    ∃ granted', Simulates I w t (op.after script)
      (op.meaning I (fun name cycle => x name (t + cycle)) script env) granted' := by
  induction script generalizing op env granted with
  | nil => exact ⟨granted, h⟩
  | cons entry script ih =>
      have hop' : (op.step entry).Consistent :=
        (performed_of_succeeds hop.sound hcompletes.1).consistent hop
      have hpersists := persists_after hop' hcompletes.2
      exact ih (h.step hfin hop hcompletes.1 hpersists hdisciplined.1) hop' hfin hcompletes.2
        hdisciplined.2

namespace Operator

/-- Retiming preserves meaning. A finished operator has a schedule, and in every behaviour of
it the wave of inputs that begins with the clock `t` gives every signal the value that the
description means: an input or internal signal in the cycle in which it is valid, a stage of
a delay line with the value of its root, and an output in the last cycle. -/
theorem retiming_preserves_meaning (I : Interpretation V) (handle : Handle) (name : String)
    (period : Float) (pipelined : Bool) (script : Script) (lib : Library)
    (hcompletes :
      (blank handle name period pipelined).Completes (script ++ [(lib, .finish)]))
    (hdisciplined :
      (blank handle name period pipelined).Disciplined I (script ++ [(lib, .finish)]) []) :
    let op := (blank handle name period pipelined).after (script ++ [(lib, .finish)])
    ∃ schedule, op.schedule = some schedule ∧
      ∀ x w, Circuit I op schedule x w → ∀ (t : Nat) (env : String → V),
        let values := (blank handle name period pipelined).meaning I
          (fun input cycle => x input (t + cycle)) (script ++ [(lib, .finish)]) env
        (∀ s ∈ op.flow.netlist.signals, s.role ≠ .output →
          w s.name (t + s.cycle) = values (op.flow.netlist.root s).name) ∧
        ∀ s ∈ op.flow.netlist.signals, s.role = .output →
          w s.name (t + schedule.depth) = values s.name := by
  intro op
  have hblank := consistent_blank handle name period pipelined
  obtain ⟨schedule, exposed, hfinished⟩ := finished_after hblank hcompletes
  have hop : op.Consistent := consistent_after hblank hcompletes
  refine ⟨schedule, hfinished.schedule_eq, fun x w hcircuit t env => ?_⟩
  have hequations : Equations I op x w := hcircuit.equations hfinished hop
  have hstart : Simulates I w t (blank handle name period pipelined) env [] :=
    simulates_blank handle name period pipelined
  obtain ⟨granted, hsimulates⟩ := hstart.after hblank hequations hcompletes hdisciplined
  refine ⟨fun s hs hrole => ?_, fun s hs hrole => ?_⟩
  · have hs' := hop.flow.lawful.mem_signals.mp (Array.mem_toList_iff.mpr hs)
    obtain ⟨hroot, hnone, hcarries⟩ := hop.flow.root_spec hs'
    have hshown := hequations.carries hroot hcarries t
    rw [Netlist.name_of_signal hs'] at hshown
    rw [hshown, hsimulates.value hroot hnone (hop.flow.root_role hs' hrole)]
  · have hs' := hop.flow.lawful.mem_signals.mp (Array.mem_toList_iff.mpr hs)
    obtain ⟨text, hdriver⟩ := (hop.driven hs').expr_of_output hrole
    rw [hcircuit.output_eq hfinished hop hs' hrole hdriver,
      hsimulates.output hs' hrole hdriver]

/-- The input `a` counts the clocks; all else is one clock late. -/
def counting (signal : String) (clock : Nat) : Nat :=
  if signal = "a" then clock else clock - 1

theorem IsDelay.circuit {width : Width} {op : Operator} {schedule : Schedule}
    (h : IsDelay width op schedule) :
    Circuit identifiers op schedule (fun _ clock => clock) counting := by
  obtain ⟨delay, hlaid⟩ := h.laidOut
  have hname : op.flow.netlist.name 0 = "a" ∧ op.flow.netlist.name 1 = "a_d1" ∧
      op.flow.netlist.name 2 = "y" := by
    simp [Netlist.name, Netlist.signal?, h.signals]
  have hassignments := hlaid.assignments_perm
  have hloads := hlaid.loads_perm
  simp [h.signals, assignment?, List.filterMap_cons] at hassignments
  simp [h.signals, load?, List.filterMap_cons] at hloads
  constructor
  · simp [h.inputs, hname, counting]
  · simp [hassignments, hname, Value.read, identifiers, counting]
  · simp [hloads, hname, counting]
  · simp [h.instances]

/-- The delay by one clock, with a behaviour that counts the clocks. -/
theorem delay_preserves_meaning :
    ∃ schedule,
      let op := blank 0 "delay" 4 false
      let script := delayScript (.ofSettings {}) (.vector 8)
      (op.after script).schedule = some schedule ∧
      Circuit identifiers (op.after script) schedule (fun _ clock => clock) counting ∧
        ∀ t env, counting "y" (t + schedule.depth) =
          op.meaning identifiers (fun _ cycle => t + cycle) script env "y" := by
  obtain ⟨hcompletes, hdisciplined, schedule, hschedule, hdelay⟩ :=
    runs_delayScript (.ofSettings {}) (.vector 8)
  refine ⟨schedule, hschedule, hdelay.circuit, fun t env => ?_⟩
  have hy : ⟨⟨"y", .output, .combinational, .vector 8, 1, .expr "a_d1"⟩, 2⟩ ∈
      ((blank 0 "delay" 4 false).after
        (delayScript (.ofSettings {}) (.vector 8))).flow.netlist.signals := by
    rw [hdelay.signals]
    simp
  obtain ⟨schedule', hschedule', hpreserves⟩ :=
    retiming_preserves_meaning identifiers 0 "delay" 4 false
      (delayScript (.ofSettings {}) (.vector 8)).dropLast (.ofSettings {}) hcompletes hdisciplined
  obtain rfl : schedule = schedule' := Option.some.inj (hschedule.symm.trans hschedule')
  exact (hpreserves _ _ hdelay.circuit t env).2 _ hy rfl

end Operator

end Retime
