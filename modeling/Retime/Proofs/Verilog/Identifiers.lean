import Retime.Proofs.Operator.Effect
import Retime.Proofs.Operator.Ports
import Retime.Proofs.Verilog.SingleDriver

/-! # The identifiers of a module

A module has three kinds of identifiers: clock and reset, if its operator is sequential, the
signals and the instances. The names of signals are checked against those of signals, and the
names of instances against those of instances; whether a name of one kind is one of another is
up to the client.
-/

namespace Retime

open Verilog

namespace Verilog

/-- The names of all ports, nets and copies. -/
def Module.identifiers (m : Module) : List String :=
  m.declared ++ m.copies.map (·.name)

end Verilog

/-! ## Signals -/

/-- Every signal has one of the roles. -/
theorem Netlist.perm_roles (n : Netlist) :
    (n.signals.toList.filter (·.role = .input) ++ (n.signals.toList.filter (·.role = .output) ++
      n.signals.toList.filter (·.role = .internal))).Perm n.signals.toList := by
  have hrest : ∀ s : Signal, (decide (s.role = .internal)) =
      (!decide (s.role = .output) && !decide (s.role = .input)) := by
    intro s
    cases s.role <;> rfl
  have houtput : ∀ s : Signal, (decide (s.role = .output)) =
      (decide (s.role = .output) && !decide (s.role = .input)) := by
    intro s
    cases s.role <;> rfl
  have hports := List.filter_append_perm (fun s : Signal => s.role = .input) n.signals.toList
  have hothers := List.filter_append_perm (fun s : Signal => s.role = .output)
    (n.signals.toList.filter fun s => !decide (s.role = .input))
  rw [List.filter_filter, List.filter_filter] at hothers
  simp only [hrest]
  simp only [← houtput] at hothers
  exact (hothers.append_left _).trans hports

theorem Netlist.Lawful.names_withRole {n : Netlist} (h : n.Lawful) (role : Role) :
    (n.withRole role).filterMap (fun id => (n.signal? id).map (·.name)) =
      (n.signals.toList.filter (·.role = role)).map (·.name) := by
  unfold Netlist.withRole
  rw [List.filterMap_map, ← List.filterMap_eq_map]
  refine List.filterMap_congr fun s hs => ?_
  simp [h.mem_signals.mp (List.mem_of_mem_filter hs)]

namespace Operator

open Retime.Action

def signalNames (op : Operator) : List String :=
  op.flow.netlist.signals.toList.map (·.name)

def instanceNames (op : Operator) : List String :=
  op.instances.toList.map (·.name)

/-- The names of the ports that an operator needs besides its own. -/
def controlNames (schedule : Schedule) : List String :=
  if schedule.sequential then controlPorts else []

variable {op : Operator} {schedule : Schedule}

/-- The ports of one role are written with the names of their signals. -/
theorem names_of_role (hsound : op.flow.Sound) (direction : Direction) (role : Role) :
    ((op.flow.netlist.withRole role).filterMap (op.portDeclaration? direction)).map (·.name) =
      (op.flow.netlist.signals.toList.filter (·.role = role)).map (·.name) := by
  rw [List.map_filterMap, ← hsound.lawful.names_withRole]
  refine List.filterMap_congr fun id _ => ?_
  rw [portDeclaration?, Option.map_map]
  rfl

theorem PortsListed.declared_perm (h : op.PortsListed) (hsound : op.flow.Sound) :
    (op.moduleOf schedule).declared.Perm (controlNames schedule ++ op.signalNames) := by
  have hcontrol : ((if schedule.sequential then controlPorts.map fun name =>
      (⟨.input, 1, name⟩ : PortDeclaration) else []).map (·.name)) = controlNames schedule := by
    unfold controlNames
    split <;> rfl
  have houtputs : op.outputs.toList.filterMap (fun out => op.portDeclaration? .output out.signal) =
      (op.flow.netlist.withRole .output).filterMap (op.portDeclaration? .output) := by
    rw [← h.outputs, List.filterMap_map]
    rfl
  have hnets : op.netDeclarations.map (·.name) =
      (op.flow.netlist.signals.toList.filter (·.role = .internal)).map (·.name) := by
    rw [netDeclarations, List.map_map]
    rfl
  have hports : (op.moduleOf schedule).ports = op.portDeclarations schedule.sequential := rfl
  unfold Module.declared
  rw [netDeclarations_moduleOf, hports, portDeclarations, h.inputs, houtputs, List.map_append,
    List.map_append, hcontrol, names_of_role hsound, names_of_role hsound, hnets, List.append_assoc,
    List.append_assoc, ← List.map_append, ← List.map_append]
  exact (op.flow.netlist.perm_roles.map _).append_left _

/-! ## Instances -/

/-- No call but the placing of a copy adds an instance, and none takes one away. -/
theorem keeps_instances (lib : Library) {c : Call}
    (hc : ∀ sub name wiring, c ≠ .instantiate sub name wiring) (instances : Array Instance) :
    Keeps (fun op => op.instances = instances) (execute lib c) := by
  refine keeps_execute ⟨⟨fun _ h => h, fun _ h => h⟩, fun h _ => h⟩ lib c ?_
  intro op op' h hentry
  cases hentry with
  | instantiate inst => exact absurd rfl (hc _ _ _)
  | _ => exact h

/-- The new instance, if there is one, has a new name. -/
theorem wp_execute_instanceNames (h : op.Sound) (lib : Library) (c : Call) :
    (execute lib c).wp (fun _ op' => op'.instanceNames = op.instanceNames ∨
        ∃ name ∉ op.instanceNames, op'.instanceNames = op.instanceNames ++ [name])
      (fun _ op' => op'.instanceNames = op.instanceNames) op := by
  by_cases hc : ∃ sub name wiring, c = .instantiate sub name wiring
  · obtain ⟨sub, name, wiring, rfl⟩ := hc
    have hplaced : (execute lib (.instantiate sub name wiring)).wp
        (fun _ op' => ∃ inst mid last, Instantiates lib sub name wiring op inst mid last ∧
          op' = last.withInstance inst) (fun _ _ => True) op :=
      wp_bind.mpr (wp_instantiate_steps h.flow lib sub name wiring)
    refine (hplaced.and (wp_execute_sameEntries lib _ op)).mono ?_ ?_
    · rintro answer _ ⟨⟨inst, mid, last, hsteps, rfl⟩, -⟩
      refine .inr ⟨name, fun hin => ?_, ?_⟩
      · obtain ⟨other, hother, hname⟩ := List.mem_map.mp hin
        exact hsteps.name_new other (Array.mem_toList_iff.mp hother) hname
      · rw [instanceNames, hsteps.instances, Array.toList_push, List.map_append, List.map_singleton,
          hsteps.name_eq, instanceNames]
    · rintro e op' ⟨-, hsame⟩
      rw [instanceNames, hsame.instances, instanceNames]
  · have hkept := keeps_instances lib (fun sub name wiring heq => hc ⟨sub, name, wiring, heq⟩)
      op.instances op rfl
    refine Action.wp.mono hkept (fun _ op' hsame => .inl ?_) fun _ op' hsame => ?_
    · rw [instanceNames, hsame, instanceNames]
    · rw [instanceNames, hsame, instanceNames]

theorem nodup_instanceNames_step (h : op.Sound) (hnodup : op.instanceNames.Nodup)
    (entry : Library × Call) : (op.step entry).instanceNames.Nodup := by
  unfold step
  cases hopen : op.isFinished with
  | true => rwa [(perform_of_closed hopen).2]
  | false =>
      rw [(perform_of_open hopen).2]
      have hstep : (execute entry.1 entry.2).wp (fun _ op' => op'.instanceNames.Nodup)
          (fun _ op' => op'.instanceNames.Nodup) op := by
        refine (wp_execute_instanceNames h entry.1 entry.2).mono ?_ fun _ _ hsame => hsame ▸ hnodup
        rintro answer op' (hsame | ⟨name, hnew, hnames⟩)
        · exact hsame ▸ hnodup
        · rw [hnames]
          exact hnodup.append (List.nodup_singleton name) (List.disjoint_singleton.mpr hnew)
      exact hstep.state

theorem nodup_instanceNames_after (h : op.Sound) (hnodup : op.instanceNames.Nodup)
    (script : Script) : (op.after script).instanceNames.Nodup := by
  induction script generalizing op with
  | nil => exact hnodup
  | cons entry script ih =>
      exact ih (evolves_step h entry).1 (nodup_instanceNames_step h hnodup entry)

/-! ## The module of an operator -/

/-- The identifiers of a module are those of its clock and reset, of its signals and of its
instances. -/
structure Identified (op : Operator) (schedule : Schedule) (m : Module) : Prop where
  schedule_eq : op.schedule = some schedule
  declared : m.declared.Perm (controlNames schedule ++ op.signalNames)
  copies : (m.copies.map (·.name)).Perm op.instanceNames
  signals : op.signalNames.Nodup
  instances : op.instanceNames.Nodup

theorem identified_after (handle : Handle) (name : String) (period : Float) (pipelined : Bool)
    (script : Script) {m : Module}
    (hm : ((blank handle name period pipelined).after script).toModule = .ok m) :
    ∃ schedule, Identified ((blank handle name period pipelined).after script) schedule m := by
  have hblank := sound_blank handle name period pipelined
  obtain ⟨hsound, hrecorded⟩ :=
    (recorded_blank handle name period pipelined).after hblank script
  have hports := portsListed_after handle name period pipelined script
  have hnames := nodup_instanceNames_after hblank (by simp [instanceNames, blank]) script
  generalize (blank handle name period pipelined).after script = op at *
  unfold toModule at hm
  split at hm
  next schedule hschedule =>
    cases hm
    obtain ⟨exposed, hlaid⟩ := hrecorded.schedule hschedule
    refine ⟨schedule, hschedule, hports.declared_perm hsound.flow, ?_,
      hsound.flow.lawful.nodup_names, hnames⟩
    have hcopies := (hlaid.copies_perm hrecorded.place).map (·.name)
    rwa [List.map_map] at hcopies
  · cases hm

/-- The identifiers are distinct exactly if those of different kinds are. -/
theorem Identified.nodup_iff {m : Module} (h : op.Identified schedule m) :
    m.identifiers.Nodup ↔ (∀ name ∈ op.instanceNames, name ∉ op.signalNames) ∧
      ∀ name ∈ controlNames schedule, name ∉ op.signalNames ∧ name ∉ op.instanceNames := by
  have hcontrol : (controlNames schedule).Nodup := by
    unfold controlNames
    split <;> decide
  have hperm : m.identifiers.Perm
      (controlNames schedule ++ (op.signalNames ++ op.instanceNames)) := by
    rw [← List.append_assoc]
    exact h.declared.append h.copies
  rw [hperm.nodup_iff, List.nodup_append', List.nodup_append', List.disjoint_append_right]
  constructor
  · rintro ⟨-, ⟨-, -, hkinds⟩, hsignals, hinstances⟩
    exact ⟨fun name hin hsignal => hkinds hsignal hin, fun name hname =>
      ⟨fun hsignal => hsignals hname hsignal, fun hin => hinstances hname hin⟩⟩
  · rintro ⟨hkinds, hports⟩
    refine ⟨hcontrol, ⟨h.signals, h.instances, fun name hsignal hin => hkinds name hin hsignal⟩,
      fun name hname => (hports name hname).1, fun name hname => (hports name hname).2⟩

/-- Whatever was called before, failed calls included, the identifiers of the module of a finished
operator are `clk` and `rst`, if it is sequential, its signals and its instances, each of them
once. So they are distinct exactly if no instance has the name of a signal and, where `clk` and
`rst` are added, no signal and no instance is called so. -/
theorem identifiers_of_toModule (handle : Handle) (name : String) (period : Float)
    (pipelined : Bool) (script : Script) {m : Module}
    (hm : ((blank handle name period pipelined).after script).toModule = .ok m) :
    let op := (blank handle name period pipelined).after script
    ∃ schedule, op.Identified schedule m ∧
      (m.identifiers.Nodup ↔ (∀ name ∈ op.instanceNames, name ∉ op.signalNames) ∧
        ∀ name ∈ controlNames schedule, name ∉ op.signalNames ∧ name ∉ op.instanceNames) := by
  obtain ⟨schedule, hidentified⟩ := identified_after handle name period pipelined script hm
  exact ⟨schedule, hidentified, hidentified.nodup_iff⟩

/-- The delay by one clock has five identifiers, clock and reset among them. -/
theorem identifiers_of_delay :
    let op := (blank 0 "delay" 4 false).after (delayScript (.ofSettings {}) (.vector 8))
    ∃ m, op.toModule = .ok m ∧ m.identifiers.Perm ["clk", "rst", "a", "a_d1", "y"] ∧
      m.identifiers.Nodup := by
  intro op
  obtain ⟨-, -, schedule, hschedule, hdelay⟩ := runs_delayScript (.ofSettings {}) (.vector 8)
  obtain ⟨exposed, hlaid⟩ := hdelay.laidOut
  have hm := toModule_of_schedule hschedule
  obtain ⟨schedule', hidentified, hiff⟩ := identifiers_of_toModule 0 "delay" 4 false _ hm
  obtain rfl := Option.some.inj (hidentified.schedule_eq.symm.trans hschedule)
  have hsignals : op.signalNames = ["a", "a_d1", "y"] := by
    simp only [op, signalNames, hdelay.signals]
    rfl
  have hinstances : op.instanceNames = [] := by
    simp only [op, instanceNames, hdelay.instances]
    rfl
  have hcontrol : controlNames schedule' = ["clk", "rst"] :=
    if_pos (hlaid.sequential_eq.mpr (.inr (.inl Nat.one_pos)))
  have hall : (op.moduleOf schedule').identifiers.Perm ["clk", "rst", "a", "a_d1", "y"] := by
    have hperm := hidentified.declared.append hidentified.copies
    rwa [hcontrol, hsignals, hinstances] at hperm
  refine ⟨_, hm, hall, hiff.mpr ⟨?_, ?_⟩⟩
  · rw [hinstances]
    simp
  · rw [hcontrol, hsignals, hinstances]
    decide

/-! ## Namesakes -/

/-- A copy of the splitter with the name of the signal that it reads. -/
def namesakeCalls : List Call :=
  [.input "a" (.vector 8), .instantiate 0 "a" (Wiring.input {} "X" "a"), .finish]

/-- An input called like the clock of an operator that turns out to have one. -/
def clockedCalls : List Call :=
  [.input "clk" (.vector 1), .advance, .output "y" (.vector 1) "0", .finish]

theorem after_namesakeCalls :
    let op := (blank 1 "top" 4 false).after (namesakeCalls.map (splitterLibrary, ·))
    op.isFinished = true ∧ "a" ∈ op.signalNames ∧ "a" ∈ op.instanceNames := by
  intro op
  obtain ⟨sequential, hitf⟩ := interface_splitter
  let a : Declaration := ⟨"a", .input, .combinational, .vector 8, 0, .port⟩
  let given : Operator :=
    { blank 1 "top" 4 false with flow.netlist := ({} : Netlist).add a, inputs := #[0] }
  let taken : Operator := { given with consumed := given.consumed.insert 0 }
  let wiring : Wiring := Wiring.input {} "X" "a"
  have hadmits : given.Admits splitterLibrary 0 "a" wiring (splitterInterface sequential) 0 :=
    ⟨by simp [given, blank], hitf, rfl, rfl⟩
  have hfind : given.flow.netlist.find "a" = .ok ⟨a, 0⟩ := Netlist.find_add_self a
  have hread := returns_connectInput given (splitterInterface sequential) wiring
    ⟨"X", .vector 8, 0⟩ rfl hfind (by decide) rfl (Dataflow.returns_resolve_here rfl _)
  have hp := returns_connectOutput_open taken wiring 0 0 ⟨"P", .vector 8, 0⟩ rfl
  have hq := returns_connectOutput_open taken wiring 0 0 ⟨"Q", .vector 8, 0⟩ rfl
  let copied : Operator := { taken with
    instances := #[⟨0, "a", 0, splitterInterface sequential, 0, 0, [("X", .signal 0)],
      [("P", none), ("Q", none)]⟩] }
  have hcopy : given.Leads [(splitterLibrary, .instantiate 0 "a" wiring)] copied :=
    leads_instantiate rfl hadmits (hread.forEach_cons (returns_forEach_nil _))
      (hp.forEach_cons (hq.forEach_cons (returns_forEach_nil _)))
  have hdirect : copied.Direct := by simp [Direct, copied, taken, given, blank]
  have hpipelined : copied.timeline.pipelined = false := rfl
  obtain ⟨schedule, -, hfinish⟩ : ∃ schedule, _ ∧ copied.Leads [(splitterLibrary, .finish)] _ :=
    leads_finish rfl hdirect (by simp [hpipelined])
  have hop : op = { copied with schedule := some schedule } :=
    (Leads.cons (leads_input rfl rfl (by simp [blank, Netlist.contains]))
      (Leads.cons hcopy hfinish)).2
  rw [hop]
  exact ⟨rfl, List.mem_singleton_self _, List.mem_singleton_self _⟩

/-- The clocked operator before it is finished. -/
def clockedBody : Operator :=
  let timeline := ({ period := 4, pipelined := false } : Timeline).enter 1
  { blank 1 "top" 4 false with
    timeline
    flow.netlist := (({} : Netlist).add ⟨"clk", .input, .combinational, .vector 1, 0, .port⟩).add
      ⟨"y", .output, .combinational, .vector 1, 1, .expr "0"⟩
    inputs := #[0]
    outputs := #[⟨1, timeline.criticalPath⟩] }

theorem leads_clockedCalls (lib : Library) : ∃ exposed schedule,
    LaidOut clockedBody 1 exposed schedule ∧
      (blank 1 "top" 4 false).Leads (clockedCalls.map (lib, ·))
        { clockedBody with schedule := some schedule } := by
  have hadvance : ({ period := 4, pipelined := false } : Timeline).advance =
      .ok (({ period := 4, pipelined := false } : Timeline).enter 1) := by
    simp [Timeline.advance, laterCycle, maxCycle, Except.map]
  have hdirect : clockedBody.Direct := (direct_of_single rfl rfl rfl).1
  obtain ⟨schedule, hlaid, hfinish⟩ : ∃ schedule, _ ∧ clockedBody.Leads [(lib, .finish)] _ :=
    leads_finish rfl hdirect (by simp [clockedBody])
  refine ⟨_, schedule, hlaid, ?_⟩
  refine Leads.cons (leads_input rfl rfl (by simp [blank, Netlist.contains])) ?_
  refine Leads.cons (leads_advance rfl hadvance) ?_
  refine Leads.cons (leads_output rfl (Timeline.cycle_enter 1) ?_ rfl) hfinish
  simp [blank, Netlist.contains, Netlist.add]

theorem after_clockedCalls :
    let op := (blank 1 "top" 4 false).after (clockedCalls.map (.ofSettings {}, ·))
    ∃ schedule, op.schedule = some schedule ∧ schedule.sequential = true ∧
      "clk" ∈ op.signalNames := by
  intro op
  obtain ⟨exposed, schedule, hlaid, -, hop⟩ := leads_clockedCalls (.ofSettings {})
  rw [show op = _ from hop]
  exact ⟨schedule, rfl, hlaid.sequential_eq.mpr (.inr (.inl Nat.one_pos)), List.mem_cons_self⟩

/-- A name may stand for a signal and an instance, or for a signal and the clock. -/
theorem namesakes_are_accepted :
    (∃ m, ((blank 1 "top" 4 false).after (namesakeCalls.map (splitterLibrary, ·))).toModule =
        .ok m ∧ ¬ m.identifiers.Nodup) ∧
      ∃ m, ((blank 1 "top" 4 false).after (clockedCalls.map (.ofSettings {}, ·))).toModule =
        .ok m ∧ ¬ m.identifiers.Nodup := by
  constructor
  · obtain ⟨hfinished, hsignal, hinstance⟩ := after_namesakeCalls
    obtain ⟨schedule, hschedule⟩ := Option.isSome_iff_exists.mp hfinished
    have hm := toModule_of_schedule hschedule
    obtain ⟨schedule', hidentified⟩ := identified_after 1 "top" 4 false _ hm
    exact ⟨_, hm, fun hnodup => (hidentified.nodup_iff.mp hnodup).1 "a" hinstance hsignal⟩
  · obtain ⟨schedule, hschedule, hsequential, hsignal⟩ := after_clockedCalls
    have hm := toModule_of_schedule hschedule
    obtain ⟨schedule', hidentified⟩ := identified_after 1 "top" 4 false _ hm
    obtain rfl := Option.some.inj (hidentified.schedule_eq.symm.trans hschedule)
    have hclk : "clk" ∈ controlNames schedule' := by
      rw [controlNames, if_pos hsequential]
      exact List.mem_cons_self
    exact ⟨_, hm, fun hnodup => ((hidentified.nodup_iff.mp hnodup).2 "clk" hclk).1 hsignal⟩

end Operator

end Retime
