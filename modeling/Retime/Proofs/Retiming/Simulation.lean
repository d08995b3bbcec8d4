import Retime.Proofs.Retiming.Equations

/-! # Simulation

Call by call, the meaning of a description is what a behaviour of the finished operator
shows, each value in the clock in which its signal is valid for one wave of inputs.
-/

namespace Retime

open Operator

variable {V : Type} {I : Interpretation V} {fin op op' : Operator} {x w : String → Nat → V}
  {t : Nat} {env env' : String → V} {granted granted' : List (Nat × String)}

/-- The values of the wave `t` that the description gave up to `op`. -/
structure Simulates (I : Interpretation V) (w : String → Nat → V) (t : Nat) (op : Operator)
    (env : String → V) (granted : List (Nat × String)) : Prop where
  value : ∀ {s}, op.flow.netlist.signal? s.id = some s → s.isStage = false → s.role ≠ .output →
    env s.name = w s.name (t + s.cycle)
  output : ∀ {s text}, op.flow.netlist.signal? s.id = some s → s.role = .output →
    s.driver = .expr text → env s.name = I.expr text (w · (t + s.cycle))
  granted : ∀ {cycle identifier}, (cycle, identifier) ∈ granted →
    ∃ s, op.flow.netlist.signal? s.id = some s ∧ s.name = identifier ∧ s.role ≠ .output ∧
      s.cycle = cycle ∧ env identifier = w identifier (t + cycle)

theorem simulates_blank (handle : Handle) (name : String) (period : Float) (pipelined : Bool) :
    Simulates I w t (blank handle name period pipelined) env [] where
  value hs := by simp [blank, Netlist.signal?] at hs
  output hs := by simp [blank, Netlist.signal?] at hs
  granted hg := by cases hg

/-- New signals have their values, and the values of old ones stay. -/
theorem Simulates.extend (h : Simulates I w t op env granted) (hop : op.Persists op')
    (henv : ∀ {s}, op.flow.netlist.signal? s.id = some s → env' s.name = env s.name)
    (hnew : ∀ {s}, op'.flow.netlist.signal? s.id = some s →
      op.flow.netlist.signal? s.id = some s ∨
        (s.isStage = false → s.role ≠ .output → env' s.name = w s.name (t + s.cycle)) ∧
          (s.role = .output → ∀ text, s.driver = .expr text →
            env' s.name = I.expr text (w · (t + s.cycle)))) :
    Simulates I w t op' env' granted where
  value hs hnone hrole := by
    rcases hnew hs with hs' | ⟨hvalue, -⟩
    · rw [henv hs']
      exact h.value hs' hnone hrole
    · exact hvalue hnone hrole
  output hs hrole hdriver := by
    rcases hnew hs with hs' | ⟨-, houtput⟩
    · rw [henv hs']
      exact h.output hs' hrole hdriver
    · exact houtput hrole _ hdriver
  granted hg := by
    obtain ⟨s, hs, rfl, hrole, hcycle, hvalue⟩ := h.granted hg
    exact ⟨s, hop.flow.netlist _ _ hs, rfl, hrole, hcycle, by rw [henv hs, hvalue]⟩

/-! ## Declarations -/

/-- A declared name is bound to its value, and no older name is bound anew. -/
theorem Simulates.declare (h : Simulates I w t op env granted) {decl : Declaration}
    (hop : op.Declares op' decl) (hsound : op.flow.Sound) {v : V}
    (hvalue : decl.role ≠ .output → v = w decl.name (t + decl.cycle))
    (houtput : decl.role = .output → ∀ text, decl.driver = .expr text →
      v = I.expr text (w · (t + decl.cycle))) :
    Simulates I w t op' (Function.update env decl.name v) granted := by
  refine h.extend hop.persists (fun {s} hs => ?_) fun {s} hs => ?_
  · refine Function.update_of_ne ?_ v env
    intro hname
    have htaken := hsound.lawful.contains_iff.mpr ⟨s, hs, hname⟩
    rw [hop.free] at htaken
    cases htaken
  · rw [hop.flow] at hs
    rcases Netlist.signal?_add_cases hs with ⟨-, rfl⟩ | hs
    · refine .inr ⟨fun _ hrole => ?_, fun hrole text hdriver => ?_⟩
      · rw [Function.update_self]
        exact hvalue hrole
      · rw [Function.update_self]
        exact houtput hrole text hdriver
    · exact .inl hs

/-- An expression that reads what was granted in a cycle means what it shows in it. -/
theorem Simulates.expr_eq (h : Simulates I w t op env granted) {text : String} {cycle : Nat}
    (hreads : ∀ identifier ∈ I.reads text, (cycle, identifier) ∈ granted) :
    I.expr text env = I.expr text (w · (t + cycle)) := by
  apply I.expr_congr text _ _
  intro identifier hid
  obtain ⟨s, -, -, -, -, hvalue⟩ := h.granted (hreads identifier hid)
  exact hvalue

/-! ## Reading -/

theorem headName_eq {s : Signal} (hsound : op.flow.Sound)
    (hs : op.flow.netlist.signal? s.id = some s) :
    op.headName s.name = (op.flow.netlist.root s).name := by
  rw [headName, hsound.lawful.find_ok.mpr ⟨hs, rfl⟩]

theorem Operator.Persists.name_eq (h : op.Persists op') {id : SignalId} {s : Signal}
    (hs : op.flow.netlist.signal? id = some s) :
    op'.flow.netlist.name id = op.flow.netlist.name id := by
  rw [Netlist.name_of_signal hs, Netlist.name_of_signal (h.flow.netlist _ _ hs)]

/-- What a name stands for is what its reader shows in the cycle of the reading. -/
theorem Simulates.read_eq (h : Simulates I w t op env granted) (hfin : Equations I fin x w)
    (hsound : op'.flow.Sound) (hpersists : op'.Persists fin) {name : String} {cycle : Nat}
    {id : SignalId} (hreads : op.flow.Reads op'.flow name cycle id) :
    env (op'.headName name) = w (fin.flow.netlist.name id) (t + cycle) := by
  obtain ⟨s, hs, rfl, hrole, hcarries, hroot⟩ := hreads
  obtain ⟨hroot', hnone, -⟩ := hsound.root_spec hs
  rw [headName_eq hsound hs, h.value hroot hnone (hsound.root_role hs hrole)]
  exact (hfin.carries (hpersists.flow.netlist _ _ hroot') (hcarries.mono hpersists.flow) t).symm

/-- A consumed identifier is bound to the value that was asked for. -/
theorem Simulates.consume (h : Simulates I w t op env granted) (hfin : Equations I fin x w)
    (hlonger : op.Lengthened op') (hpersists : op'.Persists fin) {name : String} {cycle : Nat}
    {id : SignalId} (hreads : op.flow.Reads op'.flow name cycle id) :
    Simulates I w t op'
      (Function.update env (op'.flow.netlist.name id) (env (op'.headName name)))
      ((cycle, op'.flow.netlist.name id) :: granted) := by
  have hsound := hlonger.sound
  have hvalue := h.read_eq hfin hsound hpersists hreads
  obtain ⟨s, hs, hname, hrole, hcarries, -⟩ := hreads
  obtain ⟨hroot, hnone, -⟩ := hsound.root_spec hs
  obtain ⟨reader, hreader, rfl, hreaderRole, hcycle, -⟩ :=
    hcarries.signal hsound hroot hnone (hsound.root_role hs hrole)
  rw [hpersists.name_eq hreader] at hvalue
  rw [Netlist.name_of_signal hreader] at hvalue ⊢
  -- no other signal has the name of the reader
  have hsame : ∀ {s}, op'.flow.netlist.signal? s.id = some s → s.name = reader.name → s = reader :=
    fun hs hname => hsound.lawful.eq_of_name hs hreader hname
  have hold : ∀ {s}, op'.flow.netlist.signal? s.id = some s → s.isStage = false →
      op.flow.netlist.signal? s.id = some s := by
    intro s hs hnone
    rcases hlonger.signals hs with hs | hstage
    · exact hs
    · rw [hnone] at hstage
      cases hstage
  constructor
  · intro s hs hnone hrole
    by_cases hname : s.name = reader.name
    · rw [hname, Function.update_self, hvalue, hsame hs hname, hcycle]
    · rw [Function.update_of_ne hname]
      exact h.value (hold hs hnone) hnone hrole
  · intro s text hs hrole hdriver
    have hname : s.name ≠ reader.name := by
      intro hname
      exact hreaderRole (hsame hs hname ▸ hrole)
    rw [Function.update_of_ne hname]
    exact h.output (hold hs (by simp [Signal.isStage, hdriver])) hrole hdriver
  · intro cycle' identifier hg
    rcases List.mem_cons.mp hg with hg | hg
    · cases hg
      exact ⟨reader, hreader, rfl, hreaderRole, hcycle, by rw [Function.update_self, hvalue]⟩
    · obtain ⟨s, hs, rfl, hrole, rfl, hgranted⟩ := h.granted hg
      have hs' := hlonger.extends_flow.netlist _ _ hs
      refine ⟨s, hs', rfl, hrole, rfl, ?_⟩
      by_cases hname : s.name = reader.name
      · rw [hname, Function.update_self, hvalue, hsame hs' hname, hcycle]
      · rw [Function.update_of_ne hname, hgranted]

/-! ## Instances -/

section Instantiate

variable {lib : Library} {sub : Handle} {name : String} {wiring : Wiring} {inst : Instance}

/-- What is found for a signal is the value of an output that is connected to it. -/
theorem outputValue?_some {itf : Interface} {signal : String} {v : V}
    (hv : op'.outputValue? I itf name wiring env signal = some v) :
    ∃ p ∈ itf.outputs, wiring.outputs.lookup p.name = some signal ∧
      v = I.block name p.name (itf.inputs.map fun p => (p.name, op'.sourceValue I wiring env p)) := by
  obtain ⟨p, hp, hfound⟩ := List.exists_of_findSome?_eq_some hv
  split at hfound
  next hbound => exact ⟨p, hp, hbound, (Option.some.inj hfound).symm⟩
  · cases hfound

theorem outputValue?_ne_none {itf : Interface} {signal : String} {p : Port}
    (hp : p ∈ itf.outputs) (hbound : wiring.outputs.lookup p.name = some signal) :
    op'.outputValue? I itf name wiring env signal ≠ none := by
  intro hnone
  have hp' := List.findSome?_eq_none_iff.mp hnone p hp
  rw [if_pos hbound] at hp'
  cases hp'

/-- The signal that the output of a port drives. -/
theorem Operator.Placement.driven (h : Placement lib sub name wiring op op' inst) {p : Port}
    (hp : p ∈ inst.interface.outputs) {signal : String}
    (hbound : wiring.outputs.lookup p.name = some signal) :
    ∃ s, op'.flow.netlist.signal? s.id = some s ∧ s.name = signal ∧ s.role = .internal ∧
      s.driver = .inst inst.id p.name ∧ s.cycle = inst.outputCycle ∧
        (p.name, some s.id) ∈ inst.outputs := by
  obtain ⟨entry, hentry, hyields⟩ := exists_right_of_forall₂ h.yields hp
  cases hyields with
  | unbound bound =>
      rw [hbound] at bound
      cases bound
  | signal s bound mem role driver cycle_eq width =>
      rw [hbound] at bound
      exact ⟨s, mem, (Option.some.inj bound).symm, role, driver, cycle_eq, hentry⟩

/-- A signal that is driven by an output is connected to it. -/
theorem Operator.Placement.bound (h : Placement lib sub name wiring op op' inst) {s : Signal}
    (hs : op'.flow.netlist.signal? s.id = some s) {formal : String} {id : SignalId}
    (hid : s.id = id) (hout : (formal, some id) ∈ inst.outputs) :
    ∃ p ∈ inst.interface.outputs, wiring.outputs.lookup p.name = some s.name := by
  obtain ⟨p, hp, hyields⟩ := exists_left_of_forall₂ h.yields hout
  cases hyields with
  | signal s' bound mem role driver cycle_eq width =>
      rw [hid, mem] at hs
      exact ⟨p, hp, Option.some.inj hs ▸ bound⟩

/-- The values at the inputs are those that the sources show when the inputs are taken. -/
theorem Simulates.inputs_eq (h : Simulates I w t op env granted) (hfin : Equations I fin x w)
    (hplaced : Placement lib sub name wiring op op' inst) (hpersists : op'.Persists fin) :
    inst.interface.inputs.map (fun p => (p.name, op'.sourceValue I wiring env p)) =
      inst.inputs.map fun (f, actual) =>
        (f, actual.read I fin.flow.netlist (w · (t + inst.inputCycle))) := by
  refine map_eq_map_of_forall₂ hplaced.connects fun p entry hconnects => ?_
  cases hconnects with
  | constant text bound => simp [Operator.sourceValue, bound, Actual.read]
  | signal source id bound reads width =>
      have hread := h.read_eq hfin hplaced.sound hpersists reads
      simp [Operator.sourceValue, bound, Actual.read, hread]

/-- The value of an output is what its signal shows. -/
theorem Simulates.block_eq (h : Simulates I w t op env granted) (hfin : Equations I fin x w)
    (hplaced : Placement lib sub name wiring op op' inst) (hpersists : op'.Persists fin)
    {p : Port} {s : Signal} (hs : op'.flow.netlist.signal? s.id = some s)
    (hcycle : s.cycle = inst.outputCycle) (hout : (p.name, some s.id) ∈ inst.outputs) :
    I.block name p.name
        (inst.interface.inputs.map fun p => (p.name, op'.sourceValue I wiring env p)) =
      w s.name (t + s.cycle) := by
  have hinst : op'.instances[op.instances.size]? = some inst := by
    rw [hplaced.instances]
    exact Array.getElem?_push_size
  have hblock := hfin.block (hpersists.instances hinst) hout (t + inst.inputCycle)
  rw [h.inputs_eq hfin hplaced hpersists, ← hplaced.name_eq, ← hblock,
    hpersists.name_eq hs, Netlist.name_of_signal hs, hcycle, hplaced.outputCycle_eq,
    Nat.add_assoc]

theorem Simulates.instantiate (h : Simulates I w t op env granted) (hfin : Equations I fin x w)
    (hop : op.Persists op') (hplaced : Placement lib sub name wiring op op' inst)
    (hpersists : op'.Persists fin) :
    Simulates I w t op' (fun signal =>
      (op'.outputValue? I inst.interface name wiring env signal).getD (env signal)) granted := by
  have hsound := hplaced.sound
  refine h.extend hop (fun {s} hs => ?_) fun {s} hs => ?_
  · cases hvalue : op'.outputValue? I inst.interface name wiring env s.name with
    | none => rfl
    | some v =>
        -- the signals that outputs drive are new
        obtain ⟨p, hp, hbound, -⟩ := outputValue?_some hvalue
        obtain ⟨s', hs', hname, -, -, -, hout⟩ := hplaced.driven hp hbound
        obtain rfl := hsound.lawful.eq_of_name hs' (hop.flow.netlist _ _ hs) hname
        have hge := hplaced.targets_ge s'.id (List.mem_filterMap.mpr ⟨_, hout, rfl⟩)
        exact absurd hge (Nat.not_le_of_lt (Netlist.lt_size_of_signal? hs))
  · rcases hplaced.signals hs with hs' | hstage | ⟨hrole, formal, hdriver, hout⟩
    · exact .inl hs'
    · refine .inr ⟨fun hnone => ?_, fun hrole => ?_⟩
      · rw [hnone] at hstage
        cases hstage
      · rw [(hsound.wellDriven_stage hs hstage).1] at hrole
        cases hrole
    · refine .inr ⟨fun _ _ => ?_, fun houtput => ?_⟩
      · obtain ⟨p, hp, hbound⟩ := hplaced.bound hs rfl hout
        cases hvalue : op'.outputValue? I inst.interface name wiring env s.name with
        | none => exact absurd hvalue (outputValue?_ne_none hp hbound)
        | some v =>
            obtain ⟨p', hp', hbound', rfl⟩ := outputValue?_some hvalue
            obtain ⟨s', hs', hname, -, -, hcycle, hout'⟩ := hplaced.driven hp' hbound'
            obtain rfl := hsound.lawful.eq_of_name hs' hs hname
            exact h.block_eq hfin hplaced hpersists hs' hcycle hout'
      · rw [hrole] at houtput
        cases houtput

end Instantiate

/-! ## The end of a description -/

section Finish

variable {schedule : Schedule} {exposed : List ExposedOutput}

theorem heldValue?_some {signal : String} {v : V} (hv : op.heldValue? env signal = some v) :
    ∃ out ∈ op.outputs, ∃ port, op.flow.netlist.signal? out.signal = some port ∧
      port.cycle ≠ op.exposure ∧ (held port).name = signal ∧ v = env port.name := by
  obtain ⟨out, hout, hfound⟩ := List.exists_of_findSome?_eq_some hv
  split at hfound
  next port hport =>
    split at hfound
    next hheld =>
      exact ⟨out, Array.mem_toList_iff.mp hout, port, hport, hheld.1, hheld.2,
        (Option.some.inj hfound).symm⟩
    · cases hfound
  · cases hfound

theorem heldValue?_ne_none {out : OutputPort} (hout : out ∈ op.outputs) {port : Signal}
    (hport : op.flow.netlist.signal? out.signal = some port) (hcycle : port.cycle ≠ op.exposure) :
    op.heldValue? env (held port).name ≠ none := by
  intro hnone
  have hout' := List.findSome?_eq_none_iff.mp hnone out (Array.mem_toList_iff.mpr hout)
  have hheld : port.cycle ≠ op.exposure ∧ Dataflow.stageName port.name 0 = (held port).name :=
    ⟨hcycle, rfl⟩
  rw [hport] at hout'
  simp only [if_pos hheld] at hout'
  cases hout'

/-- Whatever has the name under which an output is held is what holds it. -/
theorem Operator.Finished.held_eq (hfinished : Finished op op' schedule exposed)
    {out : OutputPort} (hout : out ∈ op.outputs) {port : Signal}
    (hport : op.flow.netlist.signal? out.signal = some port) (hcycle : port.cycle ≠ op.exposure)
    {s : Signal} (hs : op'.flow.netlist.signal? s.id = some s)
    (hname : s.name = (held port).name) : s.toDeclaration = held port := by
  obtain ⟨e, -, hexposes⟩ :=
    exists_right_of_forall₂ hfinished.exposes (Array.mem_toList_iff.mpr hout)
  have hmem := hfinished.aligned.extends_flow.netlist _ _ hport
  cases hexposes with
  | direct port' mem cycle_eq =>
      rw [hmem] at mem
      exact absurd (Option.some.inj mem ▸ cycle_eq) hcycle
  | realigned port' base last mem lt held_mem carries =>
      rw [hmem] at mem
      obtain rfl := Option.some.inj mem
      have hsame : s = ⟨held port, base⟩ :=
        hfinished.aligned.sound.lawful.eq_of_name hs held_mem hname
      rw [hsame]

/-- What holds an output shows its value in the cycle of the output. -/
theorem Simulates.held_eq (h : Simulates I w t op env granted) (hfin : Equations I fin x w)
    (hop : op.Consistent) (hpersists : op'.Persists fin) {out : OutputPort}
    (hout : out ∈ op.outputs) {port : Signal}
    (hport : op.flow.netlist.signal? out.signal = some port) {s : Signal}
    (hs : op'.flow.netlist.signal? s.id = some s) (hheld : s.toDeclaration = held port) :
    s.isStage = false ∧ s.role ≠ .output ∧ env port.name = w s.name (t + s.cycle) := by
  obtain ⟨port', text, hport', hdriver⟩ := hop.sound.outputs out hout
  obtain rfl := Option.some.inj (hport.symm.trans hport')
  have hid := hop.flow.lawful.id_eq hport
  have hrole : port.role = .output := by
    obtain ⟨port', hport', hrole⟩ := hop.output_role hout
    exact Option.some.inj (hport'.symm.trans hport) ▸ hrole
  have hsrole : s.role = .internal := by rw [hheld]; rfl
  have hsdriver : s.driver = .expr text := by rw [hheld]; exact hdriver
  have hscycle : s.cycle = port.cycle := by rw [hheld]; rfl
  refine ⟨by simp [Signal.isStage, hsdriver], by simp [hsrole], ?_⟩
  rw [h.output (hid.symm ▸ hport) hrole hdriver,
    hfin.expr (hpersists.flow.netlist _ _ hs) hsrole hsdriver, hscycle]

theorem Simulates.finish (h : Simulates I w t op env granted) (hfin : Equations I fin x w)
    (hop : op.Consistent) (hstep : op.Persists op')
    (hfinished : Finished op op' schedule exposed) (hpersists : op'.Persists fin) :
    Simulates I w t op' (fun signal => (op.heldValue? env signal).getD (env signal)) granted := by
  have hsound := hfinished.aligned.sound
  -- a signal with the name of a held output has the value of the output
  have hvalue : ∀ {s}, op'.flow.netlist.signal? s.id = some s → ∀ {v},
      op.heldValue? env s.name = some v →
        s.isStage = false ∧ s.role ≠ .output ∧ v = w s.name (t + s.cycle) := by
    intro s hs v hv
    obtain ⟨out, hout, port, hport, hcycle, hname, rfl⟩ := heldValue?_some hv
    have hheld := hfinished.held_eq hout hport hcycle hs hname.symm
    exact h.held_eq hfin hop hpersists hout hport hs hheld
  refine h.extend hstep (fun {s} hs => ?_) fun {s} hs => ?_
  · cases hv : op.heldValue? env s.name with
    | none => rfl
    | some v =>
        obtain ⟨hnone, hrole, rfl⟩ := hvalue (hstep.flow.netlist _ _ hs) hv
        exact (h.value hs hnone hrole).symm
  · obtain hs' | hstage | ⟨out, hout, port, hport, hcycle, hheld⟩ :=
      hfinished.aligned.signals hs
    · exact .inl hs'
    · refine .inr ⟨fun hnone => ?_, fun hrole => ?_⟩
      · rw [hnone] at hstage
        cases hstage
      · rw [(hsound.wellDriven_stage hs hstage).1] at hrole
        cases hrole
    · refine .inr ⟨fun _ _ => ?_, fun houtput => ?_⟩
      · cases hv : op.heldValue? env s.name with
        | none =>
            have hname : s.name = (held port).name := by rw [hheld]
            rw [hname] at hv
            exact absurd hv
              (heldValue?_ne_none (Array.mem_toList_iff.mp hout) hport hcycle)
        | some v =>
            exact (hvalue hs hv).2.2
      · have hrole : s.role = .internal := by rw [hheld]; rfl
        rw [hrole] at houtput
        cases houtput

end Finish

end Retime
