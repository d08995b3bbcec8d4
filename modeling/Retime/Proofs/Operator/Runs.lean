import Retime.Proofs.Operator.Draft

/-! # Runs

A script that runs through leads from one operator to another. What each call adds is an
equation, so the operator that given calls lead to is found call by call.
-/

namespace Retime.Operator

open Retime.Action

/-- Every call of the script succeeds, and `op'` is what they leave. -/
def Leads (op : Operator) (script : Script) (op' : Operator) : Prop :=
  op.Completes script ∧ op.after script = op'

variable {op op' op'' : Operator} {lib : Library} {c : Call} {script script' : Script}
  {name : String} {width : Width} {t : Timeline}

theorem Leads.append (h : op.Leads script op') (h' : op'.Leads script' op'') :
    op.Leads (script ++ script') op'' := by
  obtain ⟨hcompletes, rfl⟩ := h
  exact ⟨completes_append.mpr ⟨hcompletes, h'.1⟩, after_append.trans h'.2⟩

theorem Leads.cons {entry : Library × Call} (h : op.Leads [entry] op')
    (h' : op'.Leads script op'') : op.Leads (entry :: script) op'' :=
  h.append h'

theorem Leads.succeeds {entry : Library × Call} (h : op.Leads [entry] op') :
    op.Succeeds entry :=
  h.1.1

theorem Leads.step_eq {entry : Library × Call} (h : op.Leads [entry] op') : op.step entry = op' :=
  h.2

theorem leads_of_wp (hopen : op.isFinished = false)
    (h : (execute lib c).wp (fun _ last => last = op') (fun _ _ => False) op) :
    op.Leads [(lib, c)] op' := by
  obtain ⟨hsucceeds, -, -, hstep⟩ := succeeds_of_wp hopen h
  exact ⟨⟨hsucceeds, trivial⟩, hstep⟩

/-! ## Declarations -/

section Declarations

variable {cycle : Nat} (hopen : op.isFinished = false) (hcycle : op.timeline.cycle = cycle)
  (hfree : op.flow.netlist.contains name = false)
include hopen hcycle hfree

theorem leads_input : op.Leads [(lib, .input name width)] { op with
    flow.netlist := op.flow.netlist.add ⟨name, .input, .combinational, width, cycle, .port⟩
    inputs := op.inputs.push op.flow.netlist.size } := by
  apply leads_of_wp hopen
  simp only [execute, addInput, wp_bind, wp_pure, wp_declareHere, Dataflow.wp_declare, wp_modify]
  simp [hfree, hcycle]

theorem leads_declare {clocking : Clocking} {expr : String} :
    op.Leads [(lib, .declare name width clocking expr)] { op with
      flow.netlist := op.flow.netlist.add
        ⟨name, .internal, clocking, width, cycle, .expr expr⟩ } := by
  apply leads_of_wp hopen
  simp only [execute, wp_bind, wp_pure, wp_declareHere, Dataflow.wp_declare]
  simp [hfree, hcycle]

/-- An output leaves with the critical path of the current cycle. -/
theorem leads_output {expr : String} {path : Float} (hpath : op.timeline.criticalPath = path) :
    op.Leads [(lib, .output name width expr)] { op with
      flow.netlist := op.flow.netlist.add
        ⟨name, .output, .combinational, width, cycle, .expr expr⟩
      outputs := op.outputs.push ⟨op.flow.netlist.size, path⟩ } := by
  apply leads_of_wp hopen
  simp only [execute, addOutput, wp_bind, wp_pure, wp_declareHere, Dataflow.wp_declare, wp_modify]
  simp [hfree, hcycle, hpath]

end Declarations

/-! ## Time -/

section Time

variable (hopen : op.isFinished = false)
include hopen

theorem leads_setCycle (cycle : Nat) :
    op.Leads [(lib, .setCycle cycle)] { op with timeline := op.timeline.enter cycle } := by
  apply leads_of_wp hopen
  simp [execute]

theorem leads_advance (ht : op.timeline.advance = .ok t) :
    op.Leads [(lib, .advance)] { op with timeline := t } := by
  apply leads_of_wp hopen
  simp [execute, ht]

theorem leads_accrue {delay : Float} {accrual : Accrual}
    (ht : op.timeline.accrue delay = .ok (accrual, t)) :
    op.Leads [(lib, .accrue delay)] { op with timeline := t } := by
  apply leads_of_wp hopen
  cases accrual <;> simp [execute, accrue, wp_ofExcept, ht]

theorem leads_setCriticalPath {delay : Float} (ht : op.timeline.setCriticalPath delay = .ok t) :
    op.Leads [(lib, .setCriticalPath delay)] { op with timeline := t } := by
  apply leads_of_wp hopen
  simp [execute, ht]

end Time

/-! ## Reading -/

section Reading

variable {cycle : Nat} {s : Signal} {id : SignalId} {flow : Dataflow}

/-- A signal is read where it is found: it is carried to the cycle, and noted as read. -/
theorem returns_read (hfind : op.flow.netlist.find name = .ok s) (hrole : s.role ≠ .output)
    (hresolve : (Dataflow.resolve s cycle).Returns op.flow id flow) :
    (read name cycle).Returns op id { op with flow, consumed := op.consumed.insert s.id } := by
  unfold read
  rw [Returns, wp_bind, wp_find, hfind]
  refine ⟨fun s' hs' => ?_, nofun⟩
  obtain rfl := Except.ok.inj hs'
  rw [if_neg hrole, wp_bind, wp_onFlow]
  exact hresolve.wp ⟨rfl, rfl⟩

theorem returns_consume (hcycle : op.timeline.cycle = cycle)
    (hfind : op.flow.netlist.find name = .ok s) (hrole : s.role ≠ .output)
    (hresolve : (Dataflow.resolve s cycle).Returns op.flow id flow) :
    (consume name).Returns op (flow.netlist.name id)
      { op with flow, consumed := op.consumed.insert s.id } := by
  subst hcycle
  unfold consume
  rw [Returns, wp_bind, wp_get, wp_bind]
  exact (returns_read hfind hrole hresolve).wp ⟨rfl, rfl⟩

theorem leads_consume (hopen : op.isFinished = false) (hcycle : op.timeline.cycle = cycle)
    (hfind : op.flow.netlist.find name = .ok s) (hrole : s.role ≠ .output)
    (hresolve : (Dataflow.resolve s cycle).Returns op.flow id flow) :
    op.Leads [(lib, .consume name)] { op with flow, consumed := op.consumed.insert s.id } :=
  leads_of_wp hopen (wp_map.mpr ((returns_consume hcycle hfind hrole hresolve).wp rfl))

end Reading

/-! ## Copies -/

section Copies

variable {itf : Interface} {wiring : Wiring} {cycle : Nat} {s : Signal}

/-- An input that is taken from a signal of its width, which is carried to the current cycle. -/
theorem returns_connectInput (op : Operator) (itf : Interface) (wiring : Wiring) (p : Port)
    {id : SignalId} {flow : Dataflow}
    (hbound : wiring.inputs.lookup p.name = some (.signal name))
    (hfind : op.flow.netlist.find name = .ok s) (hrole : s.role ≠ .output)
    (hwidth : s.width.bits = p.width.bits)
    (hresolve : (Dataflow.resolve s cycle).Returns op.flow id flow) :
    (connectInput itf wiring cycle p).Returns op (p.name, .signal id)
      { op with flow, consumed := op.consumed.insert s.id } := by
  unfold connectInput
  rw [hbound]
  dsimp only
  rw [Returns, wp_bind, wp_find, hfind]
  refine ⟨fun s' hs' => ?_, nofun⟩
  obtain rfl := Except.ok.inj hs'
  rw [if_neg (not_not.mpr hwidth), wp_bind]
  exact (returns_read hfind hrole hresolve).wp ⟨rfl, rfl⟩

/-- An output that is left open. -/
theorem returns_connectOutput_open (op : Operator) (wiring : Wiring) (place cycle : Nat) (p : Port)
    (hopen : wiring.outputs.lookup p.name = none) :
    (connectOutput wiring place cycle p).Returns op (p.name, none) op := by
  unfold connectOutput
  rw [hopen]
  exact returns_pure _ op

/-- An output that drives a new signal, which arrives with the delay of the output. -/
theorem returns_connectOutput (op : Operator) (wiring : Wiring) (place cycle : Nat) (p : Port)
    (hbound : wiring.outputs.lookup p.name = some name)
    (hfree : op.flow.netlist.contains name = false)
    (ht : op.timeline.arrive cycle p.delay = .ok t) :
    (connectOutput wiring place cycle p).Returns op (p.name, some op.flow.netlist.size) { op with
      flow.netlist := op.flow.netlist.add (driven place cycle p name)
      timeline := t } := by
  unfold connectOutput
  rw [hbound]
  simp only [Returns, wp_bind, wp_onFlow, Dataflow.wp_declare, wp_onTimeline, wp_pure, ht, hfree]
  simp [driven]

/-- A copy that is admitted connects its inputs and its outputs, and is entered. -/
theorem leads_instantiate {sub : Handle} {inputs : List (String × Actual)}
    {outputs : List (String × Option SignalId)} (hopen : op.isFinished = false)
    (hadmits : op.Admits lib sub name wiring itf cycle)
    (hinputs : (forEach (connectInput itf wiring op.timeline.cycle) itf.inputs).Returns op inputs op')
    (houtputs : (forEach (connectOutput wiring op.instances.size cycle) itf.outputs).Returns op'
      outputs op'') :
    op.Leads [(lib, .instantiate sub name wiring)] { op'' with
      instances := op''.instances.push ⟨op.instances.size, name, sub, itf, op.timeline.cycle, cycle,
        inputs, outputs⟩ } :=
  leads_of_wp hopen (wp_bind.mpr (hadmits.wp_instantiate (hinputs.wp (houtputs.wp rfl))))

end Copies

/-! ## The end -/

section End

variable (hopen : op.isFinished = false)
include hopen

/-- An operator whose outputs are valid where they are exposed is finished as it stands. -/
theorem leads_finish (hdirect : op.Direct)
    (hbounded : op.timeline.pipelined = true → op.timeline.Bounded) :
    ∃ schedule, LaidOut op op.exposure (op.outputs.toList.map asDeclared) schedule ∧
      op.Leads [(lib, .finish)] { op with schedule := some schedule } := by
  obtain ⟨schedule, hschedule⟩ := layOut_of_bounded_of_pipelined hbounded op.exposure
    (op.outputs.toList.map asDeclared)
  refine ⟨schedule, laidOut hschedule, leads_of_wp hopen ?_⟩
  simp only [execute, wp_bind, wp_pure]
  refine (wp_finish_direct hdirect).mono ?_ ?_
  · rintro - _ ⟨schedule', hschedule', rfl⟩
    rw [Except.ok.inj (hschedule.symm.trans hschedule')]
  · rintro e _ ⟨-, hfailed⟩
    rw [hschedule] at hfailed
    cases hfailed

/-- Without outputs of its own, an operator is finished as it stands. -/
theorem leads_finish_of_bounded (houtputs : op.outputs = #[]) (hbounded : op.timeline.Bounded) :
    ∃ schedule, LaidOut op 0 [] schedule ∧
      op.Leads [(lib, .finish)] { op with schedule := some schedule } := by
  have hdirect : op.Direct := by simp [Direct, houtputs]
  have hexposure : op.exposure = 0 := by simp [exposure, houtputs]
  have hexposed : op.outputs.toList.map asDeclared = [] := by simp [houtputs]
  rw [← hexposure, ← hexposed]
  exact leads_finish hopen hdirect fun _ => hbounded

end End

end Retime.Operator
