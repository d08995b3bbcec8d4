import Retime.Library.Chart
import Retime.Proofs.Checked.Calls
import Retime.Proofs.Operator.Linked
import Retime.Verilog.OfOperator

/-! # Checked emission

The module and the chart of an operator once more, with every signal and every instance looked
up by its index. A linked operator has all that its schedule and its instances refer to, so
what is written is the same.
-/

namespace Retime.Checked

open Verilog

/-! ## Modules -/

def signalName (op : Operator) (id : SignalId) : Except Slip String :=
  (·.name) <$> entry op.flow.netlist.signals id

def portDeclaration (op : Operator) (direction : Direction) (id : SignalId) :
    Except Slip PortDeclaration := do
  let s ← entry op.flow.netlist.signals id
  return { direction, width := s.width.bits, name := s.name }

def portDeclarations (op : Operator) (sequential : Bool) : Except Slip (List PortDeclaration) := do
  let inputs ← op.inputs.toList.mapM (portDeclaration op .input)
  let outputs ← op.outputs.toList.mapM fun out => portDeclaration op .output out.signal
  return (if sequential then controlPorts.map fun name => ⟨.input, 1, name⟩ else [])
    ++ inputs ++ outputs

def assign (op : Operator) (a : Assignment) : Except Slip Assign := do
  let target ← signalName op a.target
  let value ← match a.value with
    | .expr text => pure text
    | .signal id => signalName op id
  return { target, value }

/-- The text that an input is connected to. -/
def actual (op : Operator) : Actual → Except Slip String
  | .signal id => signalName op id
  | .constant text => pure text

def copy (op : Operator) (inst : Instance) : Except Slip Copy := do
  let inputs ← inst.inputs.mapM fun (formal, source) =>
    (fun text => (formal, some text)) <$> actual op source
  let outputs ← inst.outputs.mapM fun (formal, signal) =>
    (fun name => (formal, name)) <$> signal.mapM (signalName op)
  return {
    moduleName := inst.interface.name
    name := inst.name
    connections :=
      (if inst.interface.sequential then controlPorts.map fun name => (name, some name) else [])
        ++ inputs ++ outputs }

def sliceItem? (op : Operator) (slice : Slice) : Except Slip (Option Item) := do
  let assigns ← slice.assignments.mapM (assign op)
  let instances ← slice.instances.mapM (entry op.instances)
  let copies ← instances.mapM (copy op)
  let items := (if slice.assignments.isEmpty then [] else [Item.assigns assigns])
    ++ copies.map Item.copy
  return if items.isEmpty then none else some (.commented s!"cycle {slice.cycle}" items)

def update (op : Operator) (l : Load) : Except Slip Statement := do
  return .nonblocking (← signalName op l.target) (← signalName op l.source)

def reset (op : Operator) (l : Load) : Except Slip Statement := do
  let s ← entry op.flow.netlist.signals l.target
  return .nonblocking s.name (Expr.zero s.width.bits).text

def registerBlock (op : Operator) (clocking : Clocking) (loads : List Load) :
    Except Slip Item := do
  let updates ← loads.mapM (update op)
  let resets ← loads.mapM (reset op)
  let guarded := [.conditional "rst" resets updates]
  return match clocking with
    | .combinational | .registered => .always "always @(posedge clk)" updates
    | .asyncReset => .always "always @(posedge clk or posedge rst)" guarded
    | .syncReset => .always "always @(posedge clk)" guarded

def registerBlocks (op : Operator) (loads : List Load) : Except Slip (List Item) := do
  let blocks ← [Clocking.combinational, .registered, .asyncReset, .syncReset].mapM fun clocking =>
    let own := loads.filter (·.clocking = clocking)
    if own.isEmpty then pure none else some <$> registerBlock op clocking own
  return blocks.filterMap id

def moduleOf (op : Operator) (schedule : Schedule) : Except Slip Module := do
  let ports ← portDeclarations op schedule.sequential
  let slices ← schedule.slices.mapM (sliceItem? op)
  let blocks ← registerBlocks op schedule.loads
  return {
    name := op.name
    ports
    items :=
      (if op.netDeclarations.isEmpty then [] else [.nets op.netDeclarations])
        ++ slices.filterMap id ++ blocks }

/-- The module of a finished operator. -/
def toModule (op : Operator) : Except (Halt Failure) Module :=
  match op.schedule with
  | some schedule => (moduleOf op schedule).mapError .slip
  | none => .error (.error ⟨op.name, "to_module()", .unfinishedSubOperator op.name⟩)

/-! ## Charts -/

def taskOfAssignment (op : Operator) (cycle : Nat) (a : Assignment) : Except Slip Task := do
  let name ← signalName op a.target
  return { label := Task.clean name, start := cycle, stop := cycle + 1 }

/-- The tasks of one cycle. -/
def tasksOf (op : Operator) (slice : Slice) : Except Slip (List Task) := do
  let assignments ← slice.assignments.mapM (taskOfAssignment op slice.cycle)
  let instances ← slice.instances.mapM (entry op.instances)
  return assignments ++ instances.map (Task.ofInstance slice.cycle)

/-- The section of a finished operator. -/
def chartSection (op : Operator) (schedule : Schedule) : Except Slip String := do
  let tasks ← schedule.slices.mapM (tasksOf op)
  return s!"\n    section {op.name} (depth {schedule.depth}, {schedule.registerCount} regs)\n"
    ++ String.join (tasks.flatten.mapIdx fun number t => t.line (Task.clean op.name) number)

/-- The chart of all committed operators. -/
def chart (lib : Library) : Except Slip String := do
  let sections ← lib.emission.mapM fun op => op.schedule.mapM (chartSection op)
  return "gantt\n    title Operator schedules ("
    ++ Layout.message.text lib.settings.frequencyMhz ++ " MHz)\n"
    ++ "    dateFormat x\n    axisFormat %Q\n" ++ String.join (sections.filterMap id)

/-! ## References -/

variable {op : Operator} {lib : Library} {schedule : Schedule} {slice : Slice}

theorem signalName_eq {id : SignalId} (h : ∃ s, op.flow.netlist.signal? id = some s) :
    signalName op id = .ok (op.signalName id) := by
  obtain ⟨s, hs⟩ := h
  have hentry : entry op.flow.netlist.signals id = .ok s := entry_eq_ok.mpr hs
  unfold signalName Operator.signalName
  rw [hentry, Netlist.name_of_signal hs]
  rfl

theorem portDeclaration_eq {id : SignalId} (h : ∃ s, op.flow.netlist.signal? id = some s)
    (direction : Direction) : ∃ p, portDeclaration op direction id = .ok p ∧
      op.portDeclaration? direction id = some p := by
  obtain ⟨s, hs⟩ := h
  have hentry : entry op.flow.netlist.signals id = .ok s := entry_eq_ok.mpr hs
  refine ⟨{ direction, width := s.width.bits, name := s.name }, ?_, ?_⟩
  · unfold portDeclaration
    rw [hentry]
    rfl
  · unfold Operator.portDeclaration?
    rw [hs]
    rfl

theorem portDeclarations_eq (h : op.InRange) (sequential : Bool) :
    portDeclarations op sequential = .ok (op.portDeclarations sequential) := by
  have hinputs := mapM_eq_filterMap fun id hid => portDeclaration_eq (h.input hid) .input
  have houtputs : op.outputs.toList.mapM (fun out => portDeclaration op .output out.signal) =
      .ok (op.outputs.toList.filterMap fun out => op.portDeclaration? .output out.signal) := by
    apply mapM_eq_filterMap
    intro out hout
    obtain ⟨s, -, hs, -⟩ := h.sound.outputs out (Array.mem_toList_iff.mp hout)
    exact portDeclaration_eq ⟨s, hs⟩ .output
  unfold portDeclarations Operator.portDeclarations
  rw [hinputs, houtputs]
  rfl

theorem assign_eq {a : Assignment} (htarget : ∃ s, op.flow.netlist.signal? a.target = some s)
    (hvalue : ∀ id, a.value = .signal id → ∃ s, op.flow.netlist.signal? id = some s) :
    assign op a = .ok (op.assign a) := by
  unfold assign Operator.assign
  rw [signalName_eq htarget]
  cases hvalue' : a.value with
  | expr text => rfl
  | signal id =>
      simp only [signalName_eq (hvalue id hvalue')]
      rfl

/-- All that an instance is connected to is in the table. -/
theorem copy_eq {inst : Instance} {place : Nat} (h : inst.Linked lib op.flow.netlist place) :
    copy op inst = .ok (op.copy inst) := by
  have hinputs : inst.inputs.mapM (fun (formal, source) =>
      (fun text => (formal, some text)) <$> actual op source) =
        .ok (inst.inputs.map fun (formal, source) => (formal, some (match source with
          | .signal id => op.signalName id
          | .constant text => text))) := by
    apply mapM_eq_map
    intro entry hentry
    obtain ⟨p, -, htakes⟩ := exists_left_of_forall₂ h.inputs hentry
    cases htakes with
    | constant text => rfl
    | signal s mem role cycle_eq width =>
        simp only [actual, signalName_eq ⟨s, mem⟩]
        rfl
  have houtputs : inst.outputs.mapM (fun (formal, signal) =>
      (fun name => (formal, name)) <$> signal.mapM (signalName op)) =
        .ok (inst.outputs.map fun (formal, signal) => (formal, signal.map op.signalName)) := by
    apply mapM_eq_map
    intro entry hentry
    obtain ⟨p, -, hgives⟩ := exists_left_of_forall₂ h.outputs hentry
    cases hgives with
    | unbound => rfl
    | signal s mem role width =>
        simp only [Option.mapM_some, signalName_eq ⟨s, mem⟩]
        rfl
  unfold copy Operator.copy
  rw [hinputs, houtputs]
  rfl

/-! ## What a schedule refers to -/

section Linked

variable (h : op.Linked lib) (hrange : op.InRange) (hschedule : op.schedule = some schedule)
include h hschedule

theorem target_of_mem {a : Assignment} (ha : a ∈ schedule.assignments) :
    ∃ s, op.flow.netlist.signal? a.target = some s := by
  obtain ⟨exposed, hlaid, -⟩ := h.schedule hschedule
  obtain ⟨⟨cycle, _⟩, hdated, rfl⟩ := List.mem_map.mp (hlaid.assignments_perm.mem_iff.mp ha)
  obtain ⟨s, hs, hassignment⟩ := List.mem_filterMap.mp hdated
  rw [Operator.target_of_assignment? hassignment]
  exact ⟨s, h.sound.flow.lawful.mem_signals.mp hs⟩

/-- A register loads what stands before it in its line, or the root. -/
theorem ends_of_mem {l : Load} (hl : l ∈ schedule.loads) :
    (∃ s, op.flow.netlist.signal? l.target = some s) ∧
      ∃ s, op.flow.netlist.signal? l.source = some s := by
  obtain ⟨exposed, hlaid, -⟩ := h.schedule hschedule
  obtain ⟨s, hs, hload⟩ := List.mem_filterMap.mp (hlaid.loads_perm.mem_iff.mp hl)
  have hsignal := h.sound.flow.lawful.mem_signals.mp hs
  refine ⟨⟨s, Operator.target_of_load? hload ▸ hsignal⟩, ?_⟩
  unfold Operator.load? at hload
  split at hload
  next r depth hdriver =>
    obtain ⟨source, hsource, rfl⟩ := Option.map_eq_some_iff.mp hload
    split at hsource
    · obtain ⟨k, -, hk⟩ := h.sound.flow.place hsignal hdriver
      obtain ⟨root, hroot, -⟩ := h.sound.flow.stage hk
      cases hsource
      exact ⟨root, hroot⟩
    · obtain ⟨root, -, -, -, hstage⟩ := h.sound.flow.stage hsource
      exact ⟨_, hstage⟩
  · cases hload

theorem instance_of_mem {i : Nat} (hi : i ∈ schedule.slices.flatMap (·.instances)) :
    ∃ inst, op.instances[i]? = some inst ∧ inst.Linked lib op.flow.netlist i := by
  obtain ⟨exposed, hlaid, -⟩ := h.schedule hschedule
  obtain ⟨inst, hinst, rfl⟩ := List.mem_map.mp (hlaid.instances_perm.mem_iff.mp hi)
  obtain ⟨place, hplace⟩ := Array.mem_iff_getElem?.mp (Array.mem_toList_iff.mp hinst)
  have hlinked := h.instances hplace
  rw [hlinked.id_eq]
  exact ⟨inst, hplace, hlinked⟩

/-- The instances of a slice are found at their places. -/
theorem instances_eq (hslice : slice ∈ schedule.slices) :
    slice.instances.mapM (entry op.instances) =
      .ok (slice.instances.filterMap (op.instances[·]?)) := by
  apply mapM_eq_filterMap
  intro i hi
  obtain ⟨inst, hinst, -⟩ := instance_of_mem h hschedule (List.mem_flatMap_of_mem hslice hi)
  exact ⟨inst, entry_eq_ok.mpr hinst, hinst⟩

theorem registerBlocks_eq :
    registerBlocks op schedule.loads = .ok (op.registerBlocks schedule.loads) := by
  have hblock : ∀ clocking loads, loads ⊆ schedule.loads →
      registerBlock op clocking loads = .ok (op.registerBlock clocking loads) := by
    intro clocking loads hloads
    have hupdates : loads.mapM (update op) = .ok (loads.map op.update) := by
      apply mapM_eq_map
      intro l hl
      obtain ⟨htarget, hsource⟩ := ends_of_mem h hschedule (hloads hl)
      unfold update Operator.update
      rw [signalName_eq htarget, signalName_eq hsource]
      rfl
    have hresets : loads.mapM (reset op) = .ok (loads.map op.reset) := by
      apply mapM_eq_map
      intro l hl
      obtain ⟨⟨s, hs⟩, -⟩ := ends_of_mem h hschedule (hloads hl)
      have hentry : entry op.flow.netlist.signals l.target = .ok s := entry_eq_ok.mpr hs
      unfold reset Operator.reset Operator.signalName
      rw [hentry, hs, Netlist.name_of_signal hs]
      rfl
    unfold registerBlock Operator.registerBlock
    rw [hupdates, hresets]
    cases clocking <;> rfl
  have hblocks : [Clocking.combinational, .registered, .asyncReset, .syncReset].mapM
      (fun clocking =>
        let own := schedule.loads.filter (·.clocking = clocking)
        if own.isEmpty then pure none else some <$> registerBlock op clocking own) =
      (.ok ([Clocking.combinational, .registered, .asyncReset, .syncReset].map fun clocking =>
        let own := schedule.loads.filter (·.clocking = clocking)
        if own.isEmpty then none else some (op.registerBlock clocking own)) :
          Except Slip (List (Option Item))) := by
    apply mapM_eq_map
    intro clocking _
    dsimp only
    rw [hblock clocking _ (List.filter_subset_self _)]
    split <;> rfl
  unfold registerBlocks Operator.registerBlocks
  rw [hblocks]
  simp only [bind, Except.bind, pure, Except.pure, List.filterMap_map]
  rfl

theorem tasksOf_eq (hslice : slice ∈ schedule.slices) :
    tasksOf op slice = .ok (Task.ofSlice op slice) := by
  have hassignments : slice.assignments.mapM (taskOfAssignment op slice.cycle) =
      .ok (slice.assignments.map (Task.ofAssignment op slice.cycle)) := by
    apply mapM_eq_map
    intro a ha
    have hmem : a ∈ schedule.assignments := List.mem_flatMap_of_mem hslice ha
    unfold taskOfAssignment
    rw [signalName_eq (target_of_mem h hschedule hmem)]
    rfl
  unfold tasksOf Task.ofSlice
  rw [hassignments, instances_eq h hschedule hslice]
  rfl

theorem chartSection_eq : chartSection op schedule = .ok (op.chartSection schedule) := by
  have htasks := mapM_eq_map fun slice hslice => tasksOf_eq h hschedule hslice
  unfold chartSection Operator.chartSection
  rw [htasks]
  simp only [bind, Except.bind, pure, Except.pure, ← List.flatMap_def]

include hrange

theorem sliceItem?_eq (hslice : slice ∈ schedule.slices) :
    sliceItem? op slice = .ok (op.sliceItem? slice) := by
  have hassigns : slice.assignments.mapM (assign op) = .ok (slice.assignments.map op.assign) := by
    apply mapM_eq_map
    intro a ha
    have hmem : a ∈ schedule.assignments := List.mem_flatMap_of_mem hslice ha
    exact assign_eq (target_of_mem h hschedule hmem) (hrange.values hschedule a hmem)
  have hcopies : (slice.instances.filterMap (op.instances[·]?)).mapM (copy op) =
      .ok ((slice.instances.filterMap (op.instances[·]?)).map op.copy) := by
    apply mapM_eq_map
    intro inst hinst
    obtain ⟨i, hi, hfound⟩ := List.mem_filterMap.mp hinst
    exact copy_eq (h.instances hfound)
  unfold sliceItem? Operator.sliceItem?
  rw [hassigns, instances_eq h hschedule hslice]
  simp only [bind, Except.bind, hcopies, pure, Except.pure, List.map_map]
  rfl

theorem moduleOf_eq : moduleOf op schedule = .ok (op.moduleOf schedule) := by
  have hslices := mapM_eq_map fun slice hslice => sliceItem?_eq h hrange hschedule hslice
  unfold moduleOf Operator.moduleOf
  rw [portDeclarations_eq hrange, hslices, registerBlocks_eq h hschedule]
  simp only [bind, Except.bind, pure, Except.pure, List.filterMap_map]
  rfl

end Linked

theorem toModule_eq (h : op.Linked lib) (hrange : op.InRange) :
    toModule op = op.toModule.mapError .error := by
  unfold toModule Operator.toModule
  cases hschedule : op.schedule with
  | none => rfl
  | some schedule =>
      simp only [moduleOf_eq h hrange hschedule]
      rfl

theorem chart_eq (h : ∀ {h op}, lib.operator? h = some op → op.Linked lib) :
    chart lib = .ok lib.chart := by
  have hsections : lib.emission.mapM (fun op => op.schedule.mapM (chartSection op)) =
      .ok (lib.emission.map fun op => op.schedule.map op.chartSection) := by
    apply mapM_eq_map
    intro op hop
    obtain ⟨handle, -, hop⟩ := List.mem_filterMap.mp hop
    cases hschedule : op.schedule with
    | none => rfl
    | some schedule =>
        simp only [Option.mapM_some, chartSection_eq (h hop) hschedule]
        rfl
  unfold chart Library.chart
  rw [hsections]
  simp only [bind, Except.bind, pure, Except.pure, List.filterMap_map]
  rfl

end Retime.Checked
