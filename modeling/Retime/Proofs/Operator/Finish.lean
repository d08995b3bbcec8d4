import Mathlib.Data.List.Forall2
import Retime.Proofs.Operator.Requests
import Retime.Proofs.Operator.Consistent
import Retime.Proofs.Operator.Schedule

/-! # Finishing

What a successful end of a description leaves: every output is exposed in the last cycle,
by itself or by the last stage behind a signal that holds its value, and the schedule is
laid out for the operator with these signals.
-/

namespace Retime.Operator

open Retime.Action Dataflow

/-- An output leaves in the cycle `depth`, either directly or realigned. -/
inductive Exposes (depth : Nat) (d : Dataflow) (out : OutputPort) : ExposedOutput → Prop where
  | direct (s : Signal) (mem : d.netlist.signal? out.signal = some s) (cycle_eq : s.cycle = depth) :
      Exposes depth d out { delay := out.delay, realignment := none }
  | realigned (s : Signal) (base last : SignalId)
      (mem : d.netlist.signal? out.signal = some s) (lt : s.cycle < depth)
      (held_mem : d.netlist.signal? base = some ⟨held s, base⟩)
      (carries : d.Carries ⟨held s, base⟩ depth last) :
      Exposes depth d out { delay := 0, realignment := some ⟨s.id, base, last⟩ }

/-- The outputs `done` were brought to the cycle `depth`. -/
structure Aligned (depth : Nat) (op op' : Operator) (done : List OutputPort) : Prop where
  sound : op'.flow.Sound
  extends_flow : op.flow.Extends op'.flow
  /-- The new signals are stages and those that hold an output. -/
  signals : ∀ {s}, op'.flow.netlist.signal? s.id = some s →
    op.flow.netlist.signal? s.id = some s ∨ s.isStage = true ∨ ∃ out ∈ done, ∃ port,
      op.flow.netlist.signal? out.signal = some port ∧ port.cycle ≠ depth ∧
        s.toDeclaration = held port
  inputs : op'.inputs = op.inputs
  outputs : op'.outputs = op.outputs
  instances : op'.instances = op.instances

/-- The operator that was finished, with its schedule. -/
structure Finished (op op' : Operator) (schedule : Schedule) (exposed : List ExposedOutput) :
    Prop where
  aligned : Aligned op.exposure op op' op.outputs.toList
  exposes : List.Forall₂ (Exposes op.exposure op'.flow) op.outputs.toList exposed
  layOut : op'.layOut op.exposure exposed = .ok schedule
  schedule_eq : op'.schedule = some schedule

variable {op op' op'' : Operator} {depth : Nat}

theorem Exposes.mono {d d' : Dataflow} {out : OutputPort} {e : ExposedOutput}
    (h : Exposes depth d out e) (hext : d.Extends d') : Exposes depth d' out e := by
  cases h with
  | direct s mem cycle_eq => exact .direct s (hext.netlist _ _ mem) cycle_eq
  | realigned s base last mem lt held_mem carries =>
      exact .realigned s base last (hext.netlist _ _ mem) lt (hext.netlist _ _ held_mem)
        (carries.mono hext)

/-! ## Realignment -/

/-- What carrying the value of `s` to a later cycle leaves. -/
structure Carried (s : Signal) (cycle : Nat) (d : Dataflow) (base last : SignalId)
    (d' : Dataflow) : Prop where
  sound : d'.Sound
  extends_flow : d.Extends d'
  signals : ∀ {s'}, d'.netlist.signal? s'.id = some s' →
    d.netlist.signal? s'.id = some s' ∨ s'.isStage = true ∨ s'.toDeclaration = held s
  le : s.cycle ≤ cycle
  held_mem : d'.netlist.signal? base = some ⟨held s, base⟩
  carries : d'.Carries ⟨held s, base⟩ cycle last

theorem wp_carry {d : Dataflow} (h : d.Sound) {s : Signal}
    (hdriver : ∀ r depth, s.driver ≠ .stage r depth) (cycle : Nat) :
    (carry s cycle).wp (fun ends => Carried s cycle d ends.1 ends.2) (fun _ _ => True) d := by
  unfold carry
  simp only [wp_bind, wp_declare, wp_modify]
  refine ⟨fun _ => trivial, fun hfree => ?_⟩
  have hempty : d.stages d.netlist.size = #[] :=
    h.stages_of_none (Netlist.signal?_eq_none (Nat.le_refl _))
  have hdeclared : Dataflow.Sound { d with netlist := d.netlist.add (held s) } :=
    h.declare (show d.netlist.contains (held s).name = false from hfree) hdriver
  have hheld := hdeclared.setStem hempty s.name
  have hin := Netlist.signal?_add_size (n := d.netlist) (held s)
  have hroot : ∀ n : Netlist, n.root ⟨held s, d.netlist.size⟩ = ⟨held s, d.netlist.size⟩ := by
    intro n
    unfold Netlist.root
    split
    next r k hstage => exact absurd hstage (hdriver r k)
    · rfl
  -- what holds the value is no stage, so the request is for a line of its own
  have hresolve := wp_resolve (s := ⟨held s, d.netlist.size⟩) hheld hin (by simp [held]) cycle
  refine hresolve.mono (fun last d' hd' => ?_) fun _ _ _ => trivial
  have hlonger := hd'.lengthens
  have hcarries := hd'.carries
  rw [hroot] at hlonger hcarries
  refine ⟨hd'.sound, ?_, fun {s'} hs' => ?_, hd'.le, hlonger.netlist _ _ hin, hcarries⟩
  · exact ((extends_declare (held s)).trans (extends_setStem _ s.name)).trans hlonger.toExtends
  · rcases hlonger.signals hs' with hold | hstage
    · rcases Netlist.signal?_add_cases hold with ⟨-, rfl⟩ | hold
      · exact .inr (.inr rfl)
      · exact .inl hold
    · exact .inr (.inl hstage)

theorem aligned_nil (h : op.flow.Sound) : Aligned depth op op [] where
  sound := h
  extends_flow := .refl _
  signals hs := .inl hs
  inputs := rfl
  outputs := rfl
  instances := rfl

/-- Aligning one more output. -/
theorem Aligned.append {done : List OutputPort} (h : Aligned depth op op' done) {out : OutputPort}
    (hout : Aligned depth op' op'' [out])
    (hmem : ∃ s, op.flow.netlist.signal? out.signal = some s) :
    Aligned depth op op'' (done ++ [out]) where
  sound := hout.sound
  extends_flow := h.extends_flow.trans hout.extends_flow
  signals hs := by
    obtain ⟨s, hs'⟩ := hmem
    -- the output itself is an old signal, whatever was declared for those before it
    rcases hout.signals hs with hold | hstage | ⟨out', hout', port, hport, hcycle, hheld⟩
    · rcases h.signals hold with hold | hstage | ⟨out', hout', hrest⟩
      · exact .inl hold
      · exact .inr (.inl hstage)
      · exact .inr (.inr ⟨out', List.mem_append_left _ hout', hrest⟩)
    · exact .inr (.inl hstage)
    · obtain rfl := List.mem_singleton.mp hout'
      obtain rfl := Option.some.inj ((h.extends_flow.netlist _ _ hs').symm.trans hport)
      exact .inr (.inr ⟨out', by simp, s, hs', hcycle, hheld⟩)
  inputs := hout.inputs.trans h.inputs
  outputs := hout.outputs.trans h.outputs
  instances := hout.instances.trans h.instances

theorem Aligned.operator_sound {done : List OutputPort} (h : Aligned depth op op' done)
    (hop : op.Sound) : op'.Sound where
  flow := h.sound
  outputs out hout := by
    obtain ⟨s, text, hs, hdriver⟩ := hop.outputs out (h.outputs ▸ hout)
    exact ⟨s, text, h.extends_flow.netlist _ _ hs, hdriver⟩

theorem wp_expose (h : op.Sound) {out : OutputPort} (hout : out ∈ op.outputs) (depth : Nat) :
    (expose depth out).wp
      (fun e op' => Aligned depth op op' [out] ∧ Exposes depth op'.flow out e)
      (fun _ _ => True) op := by
  obtain ⟨s, text, hs, hdriver⟩ := h.outputs out hout
  unfold expose
  rw [wp_bind, wp_get]
  simp only [hs, wp_ite]
  refine ⟨fun hcycle => ?_, fun hcycle => ?_⟩
  · refine ⟨?_, .direct s hs hcycle⟩
    exact ⟨h.flow, .refl _, fun hs => .inl hs, rfl, rfl, rfl⟩
  · rw [wp_bind, wp_onFlow]
    refine (wp_carry h.flow (by simp [hdriver]) depth).mono ?_ fun _ _ _ => trivial
    rintro ⟨base, last⟩ d' hd'
    -- carrying backwards would have failed
    have hlt : s.cycle < depth := by
      have hle := hd'.le
      omega
    refine ⟨⟨hd'.sound, hd'.extends_flow, fun {s'} hs' => ?_, rfl, rfl, rfl⟩, ?_⟩
    · refine (hd'.signals hs').imp_right fun hnew => hnew.imp_right fun hheld => ?_
      exact ⟨out, List.mem_singleton_self out, s, hs, hcycle, hheld⟩
    · exact .realigned s base last (hd'.extends_flow.netlist _ _ hs) hlt hd'.held_mem hd'.carries

theorem wp_exposes (h : op.Sound) (depth : Nat) :
    (forEach (expose depth) op.outputs.toList).wp
      (fun exposed op' => Aligned depth op op' op.outputs.toList ∧
        List.Forall₂ (Exposes depth op'.flow) op.outputs.toList exposed)
      (fun _ _ => True) op := by
  refine wp_forEach (fun done exposed op' => Aligned depth op op' done ∧
    List.Forall₂ (Exposes depth op'.flow) done exposed) ⟨aligned_nil h.flow, .nil⟩ ?_
  rintro done out rest exposed op' hitems ⟨haligned, hexposes⟩
  have hout : out ∈ op.outputs := by
    rw [← Array.mem_toList_iff, ← hitems]
    simp
  have hop' : op'.Sound := haligned.operator_sound h
  refine (wp_expose hop' (haligned.outputs ▸ hout) depth).mono ?_ fun _ _ _ => trivial
  rintro e op'' ⟨hone, he⟩
  obtain ⟨s, -, hs, -⟩ := h.outputs out hout
  refine ⟨haligned.append hone ⟨s, hs⟩, ?_⟩
  exact List.rel_append (hexposes.imp fun _ _ hx => hx.mono hone.extends_flow) (.cons he .nil)

/-- Once all outputs are exposed, the end of a description is the schedule. -/
theorem wp_finish_of {Q : List ExposedOutput → Operator → Prop} {E : Fault → Operator → Prop}
    (h : (forEach (expose op.exposure) op.outputs.toList).wp Q E op) :
    finish.wp
      (fun _ op' => ∃ before exposed schedule, Q exposed before ∧
        before.layOut op.exposure exposed = .ok schedule ∧
          op' = { before with schedule := some schedule })
      (fun e op' => E e op' ∨
        ∃ exposed, Q exposed op' ∧ op'.layOut op.exposure exposed = .error e) op := by
  unfold finish
  rw [wp_bind, wp_get, wp_bind, wp_get, wp_bind]
  refine h.mono ?_ fun _ _ he => .inl he
  intro exposed before hbefore
  rw [wp_bind, wp_get, wp_bind, wp_ofExcept]
  refine ⟨fun schedule hschedule => ?_, fun e he => .inr ⟨exposed, hbefore, he⟩⟩
  have hreported : (forEach Action.report before.unusedOutputs).wp (fun _ t => t = before)
      (fun (_ : Fault) _ => False) before :=
    wp_forEach (fun _ _ t => t = before) rfl fun _ _ _ _ _ _ ht => wp_report.mpr ht
  rw [wp_bind]
  refine hreported.mono ?_ fun _ _ hfalse => hfalse.elim
  rintro - t rfl
  rw [wp_bind, wp_report, wp_modify]
  exact ⟨t, exposed, schedule, hbefore, hschedule, rfl⟩

/-- Where a single output is valid that no copy delivers after. -/
theorem exposure_of_single {out : OutputPort} {s : Signal} (houtputs : op.outputs = #[out])
    (hs : op.flow.netlist.signal? out.signal = some s)
    (hcopies : ∀ inst ∈ op.instances, inst.outputCycle ≤ s.cycle) : op.exposure = s.cycle := by
  have hcycles : (op.outputs.toList.filterMap fun out =>
      (op.flow.netlist.signal? out.signal).map (·.cycle)) = [s.cycle] := by
    simp [houtputs, hs]
  unfold exposure
  rw [hcycles, if_neg (by simp [houtputs])]
  refine foldl_max_eq (by simp) fun a ha => ?_
  rcases List.mem_append.mp ha with hout | hcopy
  · exact Nat.le_of_eq (List.mem_singleton.mp hout)
  · obtain ⟨i, hi, rfl⟩ := List.mem_map.mp hcopy
    exact hcopies i (Array.mem_toList_iff.mp hi)

/-- An output as it is exposed if it need not be realigned. -/
def asDeclared (out : OutputPort) : ExposedOutput where
  delay := out.delay
  realignment := none

/-- Every output is valid in the cycle in which it is exposed. -/
def Direct (op : Operator) : Prop :=
  ∀ out ∈ op.outputs, ∀ s ∈ op.flow.netlist.signal? out.signal, s.cycle = op.exposure

instance (op : Operator) : Decidable op.Direct :=
  inferInstanceAs (Decidable (∀ out ∈ op.outputs, ∀ s ∈ op.flow.netlist.signal? out.signal,
    s.cycle = op.exposure))

theorem direct_of_single {out : OutputPort} {s : Signal} (houtputs : op.outputs = #[out])
    (hs : op.flow.netlist.signal? out.signal = some s) (hcycle : s.cycle = op.exposure) :
    op.Direct ∧ op.outputs.toList.map asDeclared = [⟨out.delay, none⟩] := by
  refine ⟨fun out' hout' s' hs' => ?_, by simp [asDeclared, houtputs]⟩
  obtain rfl : out' = out := by simpa [houtputs] using hout'
  obtain rfl := Option.some.inj (hs.symm.trans hs')
  exact hcycle

/-- Outputs that are valid where they are exposed are not realigned. -/
theorem wp_finish_direct (hcycles : op.Direct) :
    finish.wp
      (fun _ op' => ∃ schedule,
        op.layOut op.exposure (op.outputs.toList.map asDeclared) = .ok schedule ∧
          op' = { op with schedule := some schedule })
      (fun e op' => op' = op ∧
        op.layOut op.exposure (op.outputs.toList.map asDeclared) = .error e) op := by
  have hdirect : (forEach (expose op.exposure) op.outputs.toList).wp
      (fun exposed op' => exposed = op.outputs.toList.map asDeclared ∧ op' = op)
      (fun _ _ => False) op := by
    refine wp_forEach (fun done exposed op' => exposed = done.map asDeclared ∧ op' = op)
      ⟨rfl, rfl⟩ ?_
    rintro done out rest exposed op' hitems ⟨rfl, rfl⟩
    have hout : out ∈ op'.outputs := by
      simp [← Array.mem_toList_iff, ← hitems]
    unfold expose
    rw [wp_bind, wp_get]
    split
    · simp [asDeclared]
    next s hs =>
      rw [if_pos (hcycles out hout s hs)]
      simp [asDeclared]
  refine (wp_finish_of hdirect).mono ?_ ?_
  · rintro - _ ⟨before, _, schedule, ⟨rfl, rfl⟩, hschedule, rfl⟩
    exact ⟨schedule, hschedule, rfl⟩
  · rintro e op' (hfalse | ⟨_, ⟨rfl, rfl⟩, hfailed⟩)
    · exact hfalse.elim
    · exact ⟨rfl, hfailed⟩

theorem wp_finish (h : op.Sound) :
    finish.wp (fun _ op' => ∃ schedule exposed, Finished op op' schedule exposed)
      (fun _ _ => True) op := by
  refine (wp_finish_of (wp_exposes h op.exposure)).mono ?_ fun _ _ _ => trivial
  rintro - _ ⟨before, exposed, schedule, ⟨haligned, hexposes⟩, hschedule, rfl⟩
  refine ⟨schedule, exposed, ⟨?_, hexposes, hschedule, rfl⟩⟩
  exact ⟨haligned.sound, haligned.extends_flow, haligned.signals, haligned.inputs,
    haligned.outputs, haligned.instances⟩

/-! ## Consistency -/

theorem Consistent.sound (h : op.Consistent) : op.Sound where
  flow := h.flow
  outputs out hout := by
    obtain ⟨s, hs, hrole⟩ := h.output_role hout
    have hid := h.flow.lawful.id_eq hs
    have hdriven := h.driven (s := s) (hid.symm ▸ hs)
    rw [hrole] at hdriven
    cases hdriver : s.driver <;> rw [hdriver] at hdriven <;> cases hdriven
    exact ⟨s, _, hs, hdriver⟩

theorem Aligned.consistent {done : List OutputPort} (h : Aligned depth op op' done)
    (hop : op.Consistent) (hdone : ∀ out ∈ done, out ∈ op.outputs) : op'.Consistent := by
  refine hop.extend h.sound h.extends_flow.netlist (fun {s} hs => ?_)
    (fun _ hid => h.inputs ▸ hid) (fun _ hout => h.outputs ▸ hout)
    (fun _ hout => .inl (h.outputs ▸ hout)) h.instances
  rcases h.signals hs with hold | hstage | ⟨out, hout, port, hport, -, hheld⟩
  · exact .inl hold
  · obtain ⟨hrole, r, k, hdriver⟩ := h.sound.wellDriven_stage hs hstage
    exact .inr (fresh_internal hrole (hdriver ▸ .stage r k) (by simp [hdriver]))
  · obtain ⟨port', text, hport', hdriver⟩ := hop.sound.outputs out (hdone out hout)
    obtain rfl := Option.some.inj (hport.symm.trans hport')
    have hrole : s.role = .internal := by rw [hheld]; rfl
    have hexpr : s.driver = .expr text := by rw [hheld]; exact hdriver
    exact .inr (fresh_internal hrole (hexpr ▸ .expr text) (by simp [hexpr]))

end Retime.Operator
