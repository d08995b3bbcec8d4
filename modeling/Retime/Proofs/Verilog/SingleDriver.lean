import Retime.Proofs.Operator.Conservation
import Retime.Proofs.Verilog.Blocks

/-! # Single drivers

In the module of a finished operator every signal has one driver: outputs are assigned to,
internal signals are assigned to or stand at an output of one instance, and stages are
updated in the block of their clocking. Whatever is read is declared.
-/

namespace Retime.Operator

open Verilog

/-! ## What is to be shown -/

/-- The names that stand at outputs of instances. -/
def instanceOutputs (op : Operator) : List String :=
  op.instances.toList.flatMap fun inst => inst.targets.map op.signalName

/-- How often a name is the target of an assignment, how many outputs of instances it is
connected to, and how many blocks assign to it. -/
structure Drivers (op : Operator) (m : Module) (name : String)
    (assigned connected clocked : Nat) : Prop where
  assigned : (m.assignments.map (·.target)).count name = assigned
  connected : op.instanceOutputs.count name = connected
  clocked : m.blocks.countP (name ∈ ·.targets) = clocked

/-- A block for that clocking updates the register once, and resets it once if the clocking
has a reset. -/
def UpdatedIn (name : String) (clocking : Clocking) (block : Item) : Prop :=
  ∃ resets updates, block.Clocks clocking resets updates ∧
    (updates.map (·.1)).count name = 1 ∧
      (resets.map (·.1)).count name = if clocking = .registered then 0 else 1

/-- How a signal is declared and driven in the module. -/
structure SinglyDriven (op : Operator) (m : Module) (s : Signal) : Prop where
  input : s.role = .input → op.Drivers m s.name 0 0 0
  output : s.role = .output → op.Drivers m s.name 1 0 0
  port : s.role ≠ .internal → m.netDeclarations.filter (·.name = s.name) = []
  wire : s.role = .internal → s.isStage = false →
    m.netDeclarations.filter (·.name = s.name) = [⟨.wire, s.width.bits, s.name⟩] ∧
      (op.Drivers m s.name 1 0 0 ∨ op.Drivers m s.name 0 1 0)
  register : s.isStage = true →
    m.netDeclarations.filter (·.name = s.name) = [⟨.reg, s.width.bits, s.name⟩] ∧
      op.Drivers m s.name 0 0 1 ∧
        ∃ block, m.blocks.filter (s.name ∈ ·.targets) = [block] ∧
          UpdatedIn s.name (op.flow.netlist.root s).clocking.stage block

/-- How copies are connected. -/
structure Connected (op : Operator) (m : Module) (inst : Instance) : Prop where
  connections : (op.copy inst).connections =
    (if inst.interface.sequential then [("clk", some "clk"), ("rst", some "rst")] else [])
      ++ inst.inputs.map (fun (formal, actual) =>
        (formal, some (match actual with
          | .signal id => op.signalName id
          | .constant text => text)))
      ++ inst.outputs.map fun (formal, signal) => (formal, signal.map op.signalName)
  inputs : inst.inputs.map (·.1) = inst.interface.inputs.map (·.name)
  outputs : inst.outputs.map (·.1) = inst.interface.outputs.map (·.name)
  input_declared : ∀ {formal id}, (formal, .signal id) ∈ inst.inputs →
    op.signalName id ∈ m.declared
  output_declared : ∀ {formal id}, (formal, some id) ∈ inst.outputs →
    op.signalName id ∈ m.declared

variable {op op' : Operator} {schedule : Schedule} {exposed : List ExposedOutput}

/-! ## Assignments -/

/-- A signal is assigned to as often as the schedule has an assignment for it. -/
theorem count_assignments {depth : Nat} (hlaid : LaidOut op depth exposed schedule)
    (hsound : op.flow.Sound) {s : Signal} (hs : op.flow.netlist.signal? s.id = some s) :
    ((op.moduleOf schedule).assignments.map (·.target)).count s.name =
      (assignment? depth (exposed.filterMap (·.realignment)) s).toList.length := by
  have htargets : (op.moduleOf schedule).assignments.map (·.target) =
      schedule.assignments.map fun a => op.signalName a.target := by
    rw [assignments_moduleOf, List.map_map]
    rfl
  rw [htargets, (hlaid.assignments_perm.map _).count_eq, List.map_map,
    List.count_eq_length_filter, List.filter_map, List.length_map]
  refine congrArg List.length (hsound.lawful.filter_filterMap hs fun s' a hs' ha => ?_)
  have htarget := target_of_assignment? (a := a.2) ha
  simp only [Function.comp_apply, htarget, signalName, Netlist.name, hs', Option.map_some,
    Option.getD_some]
  rfl

/-! ## Instances -/

theorem mem_flatMap_targets {id : SignalId} :
    id ∈ op.instances.toList.flatMap Instance.targets ↔
      ∃ (i : Nat) (inst : Instance) (formal : String),
        op.instances[i]? = some inst ∧ (formal, some id) ∈ inst.outputs := by
  simp only [List.mem_flatMap, Instance.targets, List.mem_filterMap, Array.mem_toList_iff,
    Array.mem_iff_getElem?]
  constructor
  · rintro ⟨inst, ⟨i, hinst⟩, ⟨formal, signal⟩, hout, rfl⟩
    exact ⟨i, inst, formal, hinst, hout⟩
  · rintro ⟨i, inst, formal, hinst, hout⟩
    exact ⟨inst, ⟨i, hinst⟩, (formal, some id), hout, rfl⟩

theorem instanceOutputs_eq : op.instanceOutputs =
    (op.instances.toList.flatMap Instance.targets).map op.signalName :=
  List.map_flatMap.symm

/-- What stands at an output is driven by it. -/
theorem Consistent.signal_of_target (hop : op.Consistent) {id : SignalId}
    (hid : id ∈ op.instances.toList.flatMap Instance.targets) :
    ∃ s, s.id = id ∧ op.flow.netlist.signal? s.id = some s ∧ op.signalName id = s.name ∧
      ∃ i formal, s.driver = .inst i formal := by
  obtain ⟨i, inst, formal, hinst, hout⟩ := mem_flatMap_targets.mp hid
  obtain ⟨s, hs, -, hdriver, -⟩ := (hop.fits hinst).output hout
  obtain rfl := hop.flow.lawful.id_eq hs
  exact ⟨s, rfl, hs, Netlist.name_of_signal hs, i, formal, hdriver⟩

theorem Consistent.nodup_instanceOutputs (hop : op.Consistent) : op.instanceOutputs.Nodup := by
  rw [instanceOutputs_eq]
  -- no id stands at two outputs, and no two ids have one name
  refine List.Nodup.map_on (fun id hid id' hid' hname => ?_) hop.targets
  obtain ⟨s, rfl, hs, hs_name, -⟩ := hop.signal_of_target hid
  obtain ⟨s', rfl, hs', hs'_name, -⟩ := hop.signal_of_target hid'
  rw [hs_name, hs'_name] at hname
  rw [hop.flow.lawful.eq_of_name hs hs' hname]

/-- The signals at the outputs of instances are those that instances drive. -/
theorem Consistent.mem_instanceOutputs (hop : op.Consistent) {s : Signal}
    (hs : op.flow.netlist.signal? s.id = some s) :
    s.name ∈ op.instanceOutputs ↔ ∃ i formal, s.driver = .inst i formal := by
  rw [instanceOutputs_eq, List.mem_map]
  constructor
  · rintro ⟨id, hid, hname⟩
    obtain ⟨s', rfl, hs', hs'_name, hdriver⟩ := hop.signal_of_target hid
    rw [hs'_name] at hname
    exact hop.flow.lawful.eq_of_name hs' hs hname ▸ hdriver
  · rintro ⟨i, formal, hdriver⟩
    obtain ⟨inst, hinst, hout⟩ := hop.placed hs hdriver
    exact ⟨s.id, mem_flatMap_targets.mpr ⟨i, inst, formal, hinst, hout⟩,
      Netlist.name_of_signal hs⟩

theorem Consistent.count_instanceOutputs_eq_zero (hop : op.Consistent) {s : Signal}
    (hs : op.flow.netlist.signal? s.id = some s) (hdriver : ∀ i formal, s.driver ≠ .inst i formal) :
    op.instanceOutputs.count s.name = 0 := by
  apply List.count_eq_zero_of_not_mem
  intro hmem
  obtain ⟨i, formal, hinst⟩ := (hop.mem_instanceOutputs hs).mp hmem
  exact hdriver i formal hinst

theorem LaidOut.copies_perm {depth : Nat} (hlaid : LaidOut op depth exposed schedule)
    (hplaces : ∀ {i : Nat} {inst}, op.instances[i]? = some inst → inst.id = i) :
    (op.moduleOf schedule).copies.Perm (op.instances.toList.map op.copy) := by
  rw [copies_moduleOf]
  refine List.Perm.map _ ((hlaid.instances_perm.filterMap _).trans (.of_eq ?_))
  rw [List.filterMap_map]
  refine (List.filterMap_congr fun inst hinst => ?_).trans List.filterMap_some
  obtain ⟨i, hi⟩ := List.mem_iff_getElem?.mp hinst
  rw [Array.getElem?_toList] at hi
  rw [Function.comp_apply, hplaces hi, hi]

/-! ## Registers -/

theorem stage_ne_combinational (clocking : Clocking) : clocking.stage ≠ .combinational := by
  cases clocking <;> decide

/-- What a stage is loaded from is in the table. -/
theorem load?_of_isStage (hsound : op.flow.Sound) {s : Signal}
    (hs : op.flow.netlist.signal? s.id = some s) (hstage : s.isStage = true) :
    s.clocking = (op.flow.netlist.root s).clocking.stage ∧
      ∃ source, load? op.flow s = some ⟨s.id, source.id, s.clocking⟩ ∧
        op.flow.netlist.signal? source.id = some source := by
  obtain ⟨-, r, depth, hdriver⟩ := hsound.wellDriven_stage hs hstage
  obtain ⟨source, hload, hprecedes⟩ := load?_of_stage hsound hs hdriver
  refine ⟨?_, source, hload, hprecedes.mem⟩
  obtain ⟨k, -, hk⟩ := hsound.place hs hdriver
  obtain ⟨root, hroot, -, -, hs'⟩ := hsound.stage hk
  have hroot_eq : op.flow.netlist.root s = root := by
    simp [Netlist.root, hdriver, hroot]
  rw [hs, Option.some.injEq] at hs'
  rw [hroot_eq, hs']
  rfl

/-- A register is loaded as often as the schedule has a load for it. -/
theorem filter_loads {depth : Nat} (hlaid : LaidOut op depth exposed schedule)
    (hsound : op.flow.Sound) {s : Signal} (hs : op.flow.netlist.signal? s.id = some s) :
    schedule.loads.filter (fun l => op.signalName l.target = s.name) =
      (load? op.flow s).toList := by
  have htable : (op.flow.netlist.signals.toList.filterMap (load? op.flow)).filter
      (fun l => op.signalName l.target = s.name) = (load? op.flow s).toList := by
    apply hsound.lawful.filter_filterMap hs
    intro s' l hs' hl
    rw [target_of_load? hl, signalName, Netlist.name_of_signal hs']
  have hperm := hlaid.loads_perm.filter fun l => op.signalName l.target = s.name
  rw [htable] at hperm
  cases hl : load? op.flow s with
  | none =>
      rw [hl] at hperm
      exact hperm.eq_nil
  | some l =>
      rw [hl] at hperm
      exact List.perm_singleton.mp hperm

/-- A load is that of a stage, and takes over a signal. -/
theorem LaidOut.stage_of_load {depth : Nat} (hlaid : LaidOut op depth exposed schedule)
    (hsound : op.flow.Sound) {l : Load} (hl : l ∈ schedule.loads) :
    ∃ s source, op.flow.netlist.signal? s.id = some s ∧ s.isStage = true ∧
      op.flow.netlist.signal? source.id = some source ∧ l = ⟨s.id, source.id, s.clocking⟩ := by
  obtain ⟨s, hs, hload⟩ := List.mem_filterMap.mp (hlaid.loads_perm.mem_iff.mp hl)
  have hs' := hsound.lawful.mem_signals.mp hs
  cases hstage : s.isStage with
  | false => simp [load?_of_not_isStage hstage] at hload
  | true =>
      obtain ⟨-, source, hload', hsource⟩ := load?_of_isStage hsound hs' hstage
      exact ⟨s, source, hs', hstage, hsource, Option.some.inj (hload.symm.trans hload')⟩

/-- A block has loads of one clocking. -/
theorem LaidOut.loads_of_block {depth : Nat} (hlaid : LaidOut op depth exposed schedule)
    (hsound : op.flow.Sound) {block : Item} (hblock : block ∈ (op.moduleOf schedule).blocks) :
    ∃ clocking own, own ⊆ schedule.loads ∧
      block.Clocks clocking (op.resets clocking own) (op.updates own) := by
  rw [blocks_moduleOf] at hblock
  obtain ⟨clocking, hown, rfl⟩ := mem_registerBlocks.mp hblock
  have hclocking : clocking ≠ .combinational := by
    obtain ⟨l, hl⟩ := List.exists_mem_of_ne_nil _ hown
    obtain ⟨hl, hsame⟩ := List.mem_filter.mp hl
    obtain ⟨s, source, hs, hstage, -, rfl⟩ := hlaid.stage_of_load hsound hl
    rw [← of_decide_eq_true hsame, (load?_of_isStage hsound hs hstage).1]
    exact stage_ne_combinational _
  exact ⟨clocking, _, fun l hl => (List.mem_filter.mp hl).1, clocks_registerBlock hclocking⟩

/-! ## Declarations -/

theorem filter_netDeclarations (hsound : op.flow.Sound) {s : Signal}
    (hs : op.flow.netlist.signal? s.id = some s) :
    (op.moduleOf schedule).netDeclarations.filter (·.name = s.name) =
      if s.role = .internal then
        [⟨if s.isStage then .reg else .wire, s.width.bits, s.name⟩] else [] := by
  rw [netDeclarations_moduleOf, netDeclarations, List.filter_map, List.filter_filter]
  have hname : ∀ s' : Signal, (((fun n : NetDeclaration => decide (n.name = s.name)) ∘
      fun s : Signal => (⟨if s.isStage then .reg else .wire, s.width.bits, s.name⟩ :
        NetDeclaration)) s' && decide (s'.role = .internal)) =
      (decide (s'.role = .internal) && decide (s'.name = s.name)) :=
    fun s' => Bool.and_comm _ _
  simp only [hname]
  rw [← List.filter_filter, hsound.lawful.filter_name hs]
  split
  next hrole => simp [hrole]
  next hrole => simp [hrole]

/-- Every signal is a port or a net, of its width. -/
theorem Consistent.mem_widths (hop : op.Consistent) {s : Signal}
    (hs : op.flow.netlist.signal? s.id = some s) :
    (s.name, s.width.bits) ∈ (op.moduleOf schedule).widths := by
  rw [Module.widths, List.mem_append]
  have hport : ∀ direction, op.portDeclaration? direction s.id =
      some ⟨direction, s.width.bits, s.name⟩ := by
    intro direction
    simp [portDeclaration?, hs]
  cases hrole : s.role with
  | input =>
      refine .inl (List.mem_map.mpr ⟨⟨.input, s.width.bits, s.name⟩, ?_, rfl⟩)
      refine List.mem_append_left _ (List.mem_append_right _ (List.mem_filterMap.mpr ?_))
      exact ⟨s.id, Array.mem_toList_iff.mpr (hop.input hs hrole), hport .input⟩
  | output =>
      obtain ⟨out, hout, hid⟩ := hop.output hs hrole
      refine .inl (List.mem_map.mpr ⟨⟨.output, s.width.bits, s.name⟩, ?_, rfl⟩)
      refine List.mem_append_right _ (List.mem_filterMap.mpr ?_)
      exact ⟨out, Array.mem_toList_iff.mpr hout, hid ▸ hport .output⟩
  | internal =>
      have hnet : ⟨if s.isStage then .reg else .wire, s.width.bits, s.name⟩ ∈
          (op.moduleOf schedule).netDeclarations.filter (·.name = s.name) := by
        rw [filter_netDeclarations hop.flow hs, if_pos hrole]
        exact List.mem_singleton_self _
      exact .inr (List.mem_map.mpr ⟨_, List.mem_of_mem_filter hnet, rfl⟩)

theorem Consistent.name_mem_declared (hop : op.Consistent) {id : SignalId} {s : Signal}
    (hs : op.flow.netlist.signal? id = some s) :
    op.signalName id ∈ (op.moduleOf schedule).declared := by
  obtain rfl := hop.flow.lawful.id_eq hs
  have hname : op.signalName s.id = s.name := Netlist.name_of_signal hs
  rw [hname, ← Module.map_fst_widths]
  exact List.mem_map.mpr ⟨_, hop.mem_widths hs, rfl⟩

/-! ## The drivers of a signal -/

section Drivers

variable {depth : Nat} (hlaid : LaidOut op depth exposed schedule) (hop : op.Consistent)
  {s : Signal} (hs : op.flow.netlist.signal? s.id = some s)
include hlaid hop hs

/-- A signal that is no stage is in no block. -/
theorem drivers_of_not_isStage (hstage : s.isStage = false) {connected : Nat}
    (hconnected : op.instanceOutputs.count s.name = connected) :
    op.Drivers (op.moduleOf schedule) s.name
      (assignment? depth (exposed.filterMap (·.realignment)) s).toList.length connected 0 where
  assigned := count_assignments hlaid hop.flow hs
  connected := hconnected
  clocked := by
    have hloads := filter_loads hlaid hop.flow hs
    rw [load?_of_not_isStage hstage] at hloads
    rw [blocks_moduleOf, List.countP_eq_length_filter, filter_registerBlocks_of_nil hloads]
    rfl

/-- A stage is in the block of its clocking. -/
theorem updatedIn_of_isStage (hstage : s.isStage = true) :
    ∃ block, (op.moduleOf schedule).blocks.filter (s.name ∈ ·.targets) = [block] ∧
      UpdatedIn s.name (op.flow.netlist.root s).clocking.stage block := by
  obtain ⟨hclocking, source, hload, -⟩ := load?_of_isStage hop.flow hs hstage
  have hloads := filter_loads hlaid hop.flow hs
  rw [hload, Option.toList_some] at hloads
  have hne : s.clocking ≠ .combinational := hclocking ▸ stage_ne_combinational _
  have hown : ((schedule.loads.filter (·.clocking = s.clocking)).filter
      fun l => op.signalName l.target = s.name).length = 1 := by
    rw [List.filter_comm, hloads]
    simp
  refine ⟨_, by rw [blocks_moduleOf, filter_registerBlocks hloads], ?_⟩
  rw [← hclocking]
  refine ⟨_, _, clocks_registerBlock hne, ?_, ?_⟩
  · rw [count_updates, hown]
  · rw [count_resets, hown]

theorem drivers_of_port (hrole : s.role = .input) :
    op.Drivers (op.moduleOf schedule) s.name 0 0 0 := by
  have hdriver := (hop.driven hs).port_of_input hrole
  have hstage : s.isStage = false := by simp [Signal.isStage, hdriver]
  have hdrivers := drivers_of_not_isStage hlaid hop hs hstage
    (hop.count_instanceOutputs_eq_zero hs (by simp [hdriver]))
  rwa [show assignment? depth _ s = none by simp [assignment?, hrole]] at hdrivers

/-- An output is assigned to once, whether it is realigned or not, and so is an internal
signal with an expression. -/
theorem drivers_of_expr {text : String} (hrole : s.role ≠ .input)
    (hdriver : s.driver = .expr text) :
    op.Drivers (op.moduleOf schedule) s.name 1 0 0 := by
  have hstage : s.isStage = false := by simp [Signal.isStage, hdriver]
  have hdrivers := drivers_of_not_isStage hlaid hop hs hstage
    (hop.count_instanceOutputs_eq_zero hs (by simp [hdriver]))
  have hassigned :
      (assignment? depth (exposed.filterMap (·.realignment)) s).toList.length = 1 := by
    cases hcase : s.role with
    | input => exact absurd hcase hrole
    | output =>
        simp only [assignment?, hcase, hdriver]
        split <;> rfl
    | internal => simp [assignment?, hcase, hdriver]
  rwa [hassigned] at hdrivers

theorem drivers_of_inst {i : Nat} {formal : String} (hdriver : s.driver = .inst i formal) :
    op.Drivers (op.moduleOf schedule) s.name 0 1 0 := by
  have hstage : s.isStage = false := by simp [Signal.isStage, hdriver]
  have hconnected : op.instanceOutputs.count s.name = 1 :=
    List.count_eq_one_of_mem hop.nodup_instanceOutputs
      ((hop.mem_instanceOutputs hs).mpr ⟨i, formal, hdriver⟩)
  have hdrivers := drivers_of_not_isStage hlaid hop hs hstage hconnected
  rwa [show assignment? depth _ s = none by simp [assignment?, hdriver]] at hdrivers

theorem drivers_of_isStage (hstage : s.isStage = true) :
    op.Drivers (op.moduleOf schedule) s.name 0 0 1 := by
  obtain ⟨-, r, k, hdriver⟩ := hop.flow.wellDriven_stage hs hstage
  obtain ⟨block, hblock, -⟩ := updatedIn_of_isStage hlaid hop hs hstage
  have hassigned := count_assignments hlaid hop.flow hs
  rw [show assignment? depth _ s = none by simp [assignment?, hdriver]] at hassigned
  refine ⟨hassigned, hop.count_instanceOutputs_eq_zero hs (by simp [hdriver]), ?_⟩
  rw [List.countP_eq_length_filter, hblock]
  rfl

theorem singlyDriven : op.SinglyDriven (op.moduleOf schedule) s where
  input := drivers_of_port hlaid hop hs
  output hrole := by
    obtain ⟨text, hdriver⟩ := (hop.driven hs).expr_of_output hrole
    exact drivers_of_expr hlaid hop hs (by simp [hrole]) hdriver
  port hrole := (filter_netDeclarations hop.flow hs).trans (if_neg hrole)
  wire hrole hstage := by
    refine ⟨(filter_netDeclarations hop.flow hs).trans (by simp [hrole, hstage]), ?_⟩
    obtain ⟨text, hdriver⟩ | ⟨i, formal, hdriver⟩ :=
      (hop.driven hs).expr_or_inst hrole hstage
    · exact .inl (drivers_of_expr hlaid hop hs (by simp [hrole]) hdriver)
    · exact .inr (drivers_of_inst hlaid hop hs hdriver)
  register hstage := by
    have hrole := (hop.flow.wellDriven_stage hs hstage).1
    refine ⟨(filter_netDeclarations hop.flow hs).trans (by simp [hrole, hstage]), ?_⟩
    exact ⟨drivers_of_isStage hlaid hop hs hstage, updatedIn_of_isStage hlaid hop hs hstage⟩

end Drivers

/-! ## The whole module -/

theorem blocks_ne_nil {depth : Nat} (hlaid : LaidOut op depth exposed schedule)
    (hsound : op.flow.Sound) :
    (op.moduleOf schedule).blocks ≠ [] ↔ 0 < op.flow.registerCount := by
  rw [blocks_moduleOf, Ne, registerBlocks_eq_nil, hsound.registerCount_pos]
  constructor
  · intro hloads
    obtain ⟨l, hl⟩ := List.exists_mem_of_ne_nil _ hloads
    obtain ⟨s, -, hs, hstage, -⟩ := hlaid.stage_of_load hsound hl
    exact ⟨s, hs, hstage⟩
  · rintro ⟨s, hs, hstage⟩
    obtain ⟨-, source, hload, -⟩ := load?_of_isStage hsound hs hstage
    exact List.ne_nil_of_mem (hlaid.loads_perm.mem_iff.mpr
      (List.mem_filterMap.mpr ⟨s, hsound.lawful.mem_signals.mpr hs, hload⟩))

/-- A block updates registers from signals, all of them declared. -/
theorem declared_of_mem_blocks {depth : Nat} (hlaid : LaidOut op depth exposed schedule)
    (hop : op.Consistent) {block : Item} (hblock : block ∈ (op.moduleOf schedule).blocks) :
    ∃ clocking resets updates, block.Clocks clocking resets updates ∧
      ∀ u ∈ updates, u.1 ∈ (op.moduleOf schedule).declared ∧
        u.2 ∈ (op.moduleOf schedule).declared := by
  obtain ⟨clocking, own, hown, hclocks⟩ := hlaid.loads_of_block hop.flow hblock
  refine ⟨clocking, _, _, hclocks, fun u hu => ?_⟩
  obtain ⟨l, hl, rfl⟩ := List.mem_map.mp hu
  obtain ⟨s, source, hs, -, hsource, rfl⟩ := hlaid.stage_of_load hop.flow (hown hl)
  exact ⟨hop.name_mem_declared hs, hop.name_mem_declared hsource⟩

theorem connected_of_mem (hop : op.Consistent) {inst : Instance} (hinst : inst ∈ op.instances) :
    op.Connected (op.moduleOf schedule) inst := by
  obtain ⟨i, hi⟩ := Array.mem_iff_getElem?.mp hinst
  have hfits := hop.fits hi
  refine ⟨rfl, hfits.inputs_eq, hfits.outputs_eq, fun hin => ?_, fun hout => ?_⟩
  · obtain ⟨s, hs, -⟩ := hfits.input hin
    exact hop.name_mem_declared hs
  · obtain ⟨s, hs, -⟩ := hfits.output hout
    exact hop.name_mem_declared hs

/-- In the module of a finished operator every signal has the one driver that it should
have. Register updates and instances read and drive nothing but declared names, and there
are ports for clock and reset exactly if there is a block, a cycle after the first, or an
instance that needs them. -/
theorem single_driver_of_toModule (handle : Handle) (name : String) (period : Float)
    (pipelined : Bool) (script : Script) (lib : Library)
    (hcompletes :
      (blank handle name period pipelined).Completes (script ++ [(lib, .finish)])) :
    let op := (blank handle name period pipelined).after (script ++ [(lib, .finish)])
    ∃ schedule m, op.schedule = some schedule ∧ op.toModule = .ok m ∧
      (∀ s ∈ op.flow.netlist.signals, op.SinglyDriven m s) ∧
      (∀ block ∈ m.blocks, ∃ clocking resets updates, block.Clocks clocking resets updates ∧
        ∀ u ∈ updates, u.1 ∈ m.declared ∧ u.2 ∈ m.declared) ∧
      m.copies.Perm (op.instances.toList.map op.copy) ∧
      (∀ inst ∈ op.instances, op.Connected m inst) ∧
      m.ports =
        (if schedule.sequential then [⟨.input, 1, "clk"⟩, ⟨.input, 1, "rst"⟩] else [])
          ++ op.inputs.toList.filterMap (op.portDeclaration? .input)
          ++ op.outputs.toList.filterMap (fun out => op.portDeclaration? .output out.signal) ∧
      (schedule.sequential = true ↔ m.blocks ≠ [] ∨ 0 < schedule.depth ∨
        ∃ inst ∈ op.instances, inst.interface.sequential = true) := by
  intro op
  have hblank := consistent_blank handle name period pipelined
  obtain ⟨schedule, exposed, hfinished⟩ := finished_after hblank hcompletes
  have hop : op.Consistent := consistent_after hblank hcompletes
  have hlaid := laidOut hfinished.layOut
  refine ⟨schedule, op.moduleOf schedule, hfinished.schedule_eq, ?_, fun s hs => ?_,
    fun block hblock => declared_of_mem_blocks hlaid hop hblock,
    hlaid.copies_perm fun hi => (hop.fits hi).id_eq,
    fun inst hinst => connected_of_mem hop hinst, rfl, ?_⟩
  · have hschedule : op.schedule = some schedule := hfinished.schedule_eq
    simp only [toModule, hschedule]
  · exact singlyDriven hlaid hop (hop.flow.lawful.mem_signals.mp (Array.mem_toList_iff.mpr hs))
  · rw [hlaid.sequential_eq, blocks_ne_nil hlaid hop.flow, hlaid.depth_eq, Array.any_eq_true']

/-- The delay by one clock is such a module. -/
theorem single_driver_of_delay :
    let op := (blank 0 "delay" 4 false).after (delayScript (.ofSettings {}) (.vector 8))
    (blank 0 "delay" 4 false).Completes (delayScript (.ofSettings {}) (.vector 8)) ∧
      ∃ m, op.toModule = .ok m ∧
        op.SinglyDriven m ⟨⟨"a_d1", .internal, .registered, .vector 8, 1, .stage 0 1⟩, 1⟩ := by
  obtain ⟨hcompletes, -, schedule, -, hdelay⟩ := runs_delayScript (.ofSettings {}) (.vector 8)
  obtain ⟨-, m, -, hm, hdriven, -⟩ :=
    single_driver_of_toModule 0 "delay" 4 false
      (delayScript (.ofSettings {}) (.vector 8)).dropLast (.ofSettings {}) hcompletes
  refine ⟨hcompletes, m, hm, hdriven _ ?_⟩
  have hstage : ⟨⟨"a_d1", .internal, .registered, .vector 8, 1, .stage 0 1⟩, 1⟩ ∈
      ((blank 0 "delay" 4 false).after
        (delayScript (.ofSettings {}) (.vector 8))).flow.netlist.signals := by
    rw [hdelay.signals]
    simp
  exact hstage

end Retime.Operator
