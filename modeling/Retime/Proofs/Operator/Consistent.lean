import Retime.Proofs.Operator.Read

/-! # Consistent operators

As long as all calls succeed, the parts of an operator agree: a signal has the kind of
driver that its role asks for, ports are listed, and every instance has its place, its
inputs in the cycle in which they are taken, and its outputs as the signals that it
drives, each of them once.
-/

namespace Retime

/-- The drivers that a signal of each role can have. -/
inductive WellDriven : Role → Driver → Prop where
  | port : WellDriven .input .port
  | output (text : String) : WellDriven .output (.expr text)
  | expr (text : String) : WellDriven .internal (.expr text)
  | inst (id : Nat) (formal : String) : WellDriven .internal (.inst id formal)
  | stage (root : SignalId) (depth : Nat) : WellDriven .internal (.stage root depth)

theorem WellDriven.port_of_input {role : Role} {driver : Driver} (h : WellDriven role driver)
    (hrole : role = .input) : driver = .port := by
  cases h with
  | port => rfl
  | _ => cases hrole

theorem WellDriven.expr_of_output {role : Role} {driver : Driver} (h : WellDriven role driver)
    (hrole : role = .output) : ∃ text, driver = .expr text := by
  cases h with
  | output text => exact ⟨text, rfl⟩
  | _ => cases hrole

theorem WellDriven.expr_or_inst {s : Signal} (h : WellDriven s.role s.driver)
    (hrole : s.role = .internal) (hstage : s.isStage = false) :
    (∃ text, s.driver = .expr text) ∨ ∃ i formal, s.driver = .inst i formal := by
  rw [hrole] at h
  cases hdriver : s.driver with
  | port =>
      rw [hdriver] at h
      cases h
  | expr text => exact .inl ⟨text, rfl⟩
  | inst i formal => exact .inr ⟨i, formal, rfl⟩
  | stage r depth => simp [Signal.isStage, hdriver] at hstage

/-- The signals that the outputs are connected to. -/
def Instance.targets (inst : Instance) : List SignalId :=
  inst.outputs.filterMap (·.2)

/-- The instance stands at `place`, all its ports are listed, and its connections are valid
in its cycles. -/
structure Instance.Fits (inst : Instance) (place : Nat) (n : Netlist) : Prop where
  id_eq : inst.id = place
  inputs_eq : inst.inputs.map (·.1) = inst.interface.inputs.map (·.name)
  outputs_eq : inst.outputs.map (·.1) = inst.interface.outputs.map (·.name)
  outputCycle_eq : inst.outputCycle = inst.inputCycle + inst.interface.depth
  input : ∀ {formal id}, (formal, .signal id) ∈ inst.inputs →
    ∃ s, n.signal? id = some s ∧ s.role ≠ .output ∧ s.cycle = inst.inputCycle
  output : ∀ {formal id}, (formal, some id) ∈ inst.outputs →
    ∃ s, n.signal? id = some s ∧ s.role = .internal ∧ s.driver = .inst place formal ∧
      s.cycle = inst.outputCycle

theorem Instance.Fits.mono {inst : Instance} {place : Nat} {n n' : Netlist}
    (h : inst.Fits place n) (hext : n.Extends n') : inst.Fits place n' where
  id_eq := h.id_eq
  inputs_eq := h.inputs_eq
  outputs_eq := h.outputs_eq
  outputCycle_eq := h.outputCycle_eq
  input hin := by
    obtain ⟨s, hs, hrest⟩ := h.input hin
    exact ⟨s, hext _ _ hs, hrest⟩
  output hout := by
    obtain ⟨s, hs, hrest⟩ := h.output hout
    exact ⟨s, hext _ _ hs, hrest⟩

theorem Instance.Fits.lt_size {inst : Instance} {place : Nat} {n : Netlist}
    (h : inst.Fits place n) {id : SignalId} (hid : id ∈ inst.targets) : id < n.size := by
  obtain ⟨⟨formal, signal⟩, hout, rfl⟩ := List.mem_filterMap.mp hid
  obtain ⟨s, hs, -⟩ := h.output hout
  exact Netlist.lt_size_of_signal? hs

/-- A stage has the role and the kind of driver of a stage. -/
theorem Dataflow.Sound.wellDriven_stage {d : Dataflow} (h : d.Sound) {s : Signal}
    (hs : d.netlist.signal? s.id = some s) (hstage : s.isStage = true) :
    s.role = .internal ∧ ∃ r depth, s.driver = .stage r depth := by
  unfold Signal.isStage at hstage
  split at hstage
  next r depth hdriver =>
    obtain ⟨k, -, hk⟩ := h.place hs hdriver
    obtain ⟨root, -, -, -, hs'⟩ := h.stage hk
    rw [hs] at hs'
    refine ⟨?_, r, depth, hdriver⟩
    rw [Option.some.inj hs']
    rfl
  · cases hstage

namespace Operator

structure Consistent (op : Operator) : Prop where
  flow : op.flow.Sound
  driven : ∀ {s}, op.flow.netlist.signal? s.id = some s → WellDriven s.role s.driver
  input : ∀ {s}, op.flow.netlist.signal? s.id = some s → s.role = .input → s.id ∈ op.inputs
  output : ∀ {s}, op.flow.netlist.signal? s.id = some s → s.role = .output →
    ∃ out ∈ op.outputs, out.signal = s.id
  output_role : ∀ {out}, out ∈ op.outputs →
    ∃ s, op.flow.netlist.signal? out.signal = some s ∧ s.role = .output
  fits : ∀ {i : Nat} {inst}, op.instances[i]? = some inst → inst.Fits i op.flow.netlist
  placed : ∀ {s i formal}, op.flow.netlist.signal? s.id = some s → s.driver = .inst i formal →
    ∃ inst, op.instances[i]? = some inst ∧ (formal, some s.id) ∈ inst.outputs
  targets : (op.instances.toList.flatMap Instance.targets).Nodup

variable {op op' : Operator}

theorem consistent_blank (handle : Handle) (name : String) (period : Float) (pipelined : Bool) :
    (blank handle name period pipelined).Consistent where
  flow := Dataflow.sound_empty
  driven hs := by simp [blank, Netlist.signal?] at hs
  input hs := by simp [blank, Netlist.signal?] at hs
  output hs := by simp [blank, Netlist.signal?] at hs
  output_role hout := by simp [blank] at hout
  fits hinst := by simp [blank] at hinst
  placed hs := by simp [blank, Netlist.signal?] at hs
  targets := by simp [blank]

/-- What has to be known of a signal that is new in `op`. -/
structure Fresh (op : Operator) (s : Signal) : Prop where
  driven : WellDriven s.role s.driver
  input : s.role = .input → s.id ∈ op.inputs
  output : s.role = .output → ∃ out ∈ op.outputs, out.signal = s.id
  placed : ∀ {i formal}, s.driver = .inst i formal →
    ∃ inst, op.instances[i]? = some inst ∧ (formal, some s.id) ∈ inst.outputs

theorem fresh_internal {s : Signal} (hrole : s.role = .internal)
    (hdriven : WellDriven .internal s.driver) (hinst : ∀ i formal, s.driver ≠ .inst i formal) :
    op.Fresh s where
  driven := hrole ▸ hdriven
  input hinput := by simp [hrole] at hinput
  output houtput := by simp [hrole] at houtput
  placed hdriver := absurd hdriver (hinst _ _)

/-- Consistency of an operator with further signals and, maybe, further ports. -/
theorem Consistent.extend (h : op.Consistent) (hsound : op'.flow.Sound)
    (hext : op.flow.netlist.Extends op'.flow.netlist)
    (hnew : ∀ {s}, op'.flow.netlist.signal? s.id = some s →
      op.flow.netlist.signal? s.id = some s ∨ op'.Fresh s)
    (hinputs : ∀ id ∈ op.inputs, id ∈ op'.inputs)
    (houtputs : ∀ out ∈ op.outputs, out ∈ op'.outputs)
    (hroles : ∀ out ∈ op'.outputs, out ∈ op.outputs ∨
      ∃ s, op'.flow.netlist.signal? out.signal = some s ∧ s.role = .output)
    (hinstances : op'.instances = op.instances) : op'.Consistent where
  flow := hsound
  driven hs := by
    rcases hnew hs with hs | hfresh
    · exact h.driven hs
    · exact hfresh.driven
  input hs hrole := by
    rcases hnew hs with hs | hfresh
    · exact hinputs _ (h.input hs hrole)
    · exact hfresh.input hrole
  output hs hrole := by
    rcases hnew hs with hs | hfresh
    · obtain ⟨out, hout, hid⟩ := h.output hs hrole
      exact ⟨out, houtputs out hout, hid⟩
    · exact hfresh.output hrole
  output_role hout := by
    rcases hroles _ hout with hout | hrole
    · obtain ⟨s, hs, hrole⟩ := h.output_role hout
      exact ⟨s, hext _ _ hs, hrole⟩
    · exact hrole
  fits hinst := (h.fits (hinstances ▸ hinst)).mono hext
  placed hs hdriver := by
    rcases hnew hs with hs | hfresh
    · rw [hinstances]
      exact h.placed hs hdriver
    · exact hfresh.placed hdriver
  targets := hinstances ▸ h.targets

/-- Consistency does not depend on the timeline and the schedule. -/
theorem Consistent.congr (h : op.Consistent) (hflow : op'.flow = op.flow)
    (hinputs : op'.inputs = op.inputs) (houtputs : op'.outputs = op.outputs)
    (hinstances : op'.instances = op.instances) : op'.Consistent :=
  h.extend (hflow ▸ h.flow) (hflow ▸ .refl _) (fun hs => .inl (hflow ▸ hs))
    (fun _ hid => hinputs ▸ hid) (fun _ hout => houtputs ▸ hout)
    (fun _ hout => .inl (houtputs ▸ hout)) hinstances

theorem Consistent.lengthened (h : op.Consistent) (hop : op.Lengthened op') :
    op'.Consistent := by
  refine h.extend hop.sound hop.extends_flow.netlist (fun {s} hs => ?_)
    (fun _ hid => hop.inputs ▸ hid) (fun _ hout => hop.outputs ▸ hout)
    (fun _ hout => .inl (hop.outputs ▸ hout)) hop.instances
  rcases hop.signals hs with hold | hstage
  · exact .inl hold
  · obtain ⟨hrole, r, depth, hdriver⟩ := hop.sound.wellDriven_stage hs hstage
    exact .inr (fresh_internal hrole (hdriver ▸ .stage r depth) (by simp [hdriver]))

end Operator

end Retime
