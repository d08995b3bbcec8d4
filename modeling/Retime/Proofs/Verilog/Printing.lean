import Retime.Proofs.Operator.References
import Retime.Proofs.Verilog.Unambiguous

/-! # Printing

Nothing that is in the module of a finished operator is lost in its text, as long as the operator
is spelled in words: whichever calls it was described by, the text tells the module.
-/

namespace Retime.Operator

open Verilog

/-- Names are words, widths are positive, and the texts that were given are not empty and have no
line break. -/
structure Spelled (op : Operator) : Prop where
  name : IsWord op.name
  signal : ∀ s ∈ op.flow.netlist.signals, IsWord s.name
  width : ∀ s ∈ op.flow.netlist.signals, 1 ≤ s.width.bits
  expr : ∀ s ∈ op.flow.netlist.signals, ∀ text, s.driver = .expr text → OneLine text
  copy : ∀ inst ∈ op.instances, IsWord inst.name
  module : ∀ inst ∈ op.instances, IsWord inst.interface.name
  input : ∀ inst ∈ op.instances, ∀ e ∈ inst.inputs, IsWord e.1
  constant : ∀ inst ∈ op.instances, ∀ e ∈ inst.inputs, ∀ text, e.2 = .constant text → OneLine text
  output : ∀ inst ∈ op.instances, ∀ e ∈ inst.outputs, IsWord e.1

variable {op : Operator} {schedule : Schedule} {loads : List Load} {clocking : Clocking}

/-! ## What is spelled -/

theorem isWord_control : ∀ name ∈ controlPorts, IsWord name := by
  decide

theorem oneLine_zero (width : Nat) : OneLine (Expr.zero width).text where
  nonempty heq := by
    have hchars := Expr.toList_zero width
    rw [heq] at hchars
    exact List.append_ne_nil_of_right_ne_nil _ (List.cons_ne_nil _ _) hchars.symm
  feed hmem := by
    rw [Expr.toList_zero, ← Nat.toList_repr] at hmem
    exact (List.mem_append.mp hmem).elim (Dataflow.notMem_repr rfl width) (by decide)

section Spelled

variable (h : op.Spelled)
include h

theorem Spelled.signalName {id : SignalId} (hid : op.Has id) : IsWord (op.signalName id) := by
  obtain ⟨s, hs⟩ := hid
  rw [Operator.signalName, Netlist.name_of_signal hs]
  exact h.signal s (Array.mem_of_getElem? hs)

theorem Spelled.port {direction : Direction} {id : SignalId} {p : PortDeclaration}
    (hp : op.portDeclaration? direction id = some p) : p.Clear := by
  obtain ⟨s, hs, rfl⟩ := Option.map_eq_some_iff.mp hp
  have hmem := Array.mem_of_getElem? hs
  exact ⟨h.signal s hmem, h.width s hmem⟩

theorem Spelled.ports (sequential : Bool) : ∀ p ∈ op.portDeclarations sequential, p.Clear := by
  intro p hp
  rcases List.mem_append.mp hp with hp | hp
  · rcases List.mem_append.mp hp with hp | hp
    · split at hp
      · obtain ⟨name, hname, rfl⟩ := List.mem_map.mp hp
        exact ⟨isWord_control name hname, Nat.one_pos⟩
      · cases hp
    · obtain ⟨id, -, hp⟩ := List.mem_filterMap.mp hp
      exact h.port hp
  · obtain ⟨out, -, hp⟩ := List.mem_filterMap.mp hp
    exact h.port hp

theorem Spelled.nets : ∀ n ∈ op.netDeclarations, n.Clear := by
  intro n hn
  obtain ⟨s, hs, rfl⟩ := List.mem_map.mp hn
  have hmem := Array.mem_toList_iff.mp (List.mem_filter.mp hs).1
  exact ⟨h.signal s hmem, h.width s hmem⟩

theorem Spelled.assign (hop : op.Refers) (hschedule : op.schedule = some schedule)
    {a : Assignment} (ha : a ∈ schedule.assignments) : (op.assign a).Clear := by
  obtain ⟨s, hs, hvalue⟩ := hop.assignment hschedule ha
  refine ⟨h.signalName ⟨s, hs⟩, ?_⟩
  obtain ⟨target, value⟩ := a
  rcases hvalue with ⟨text, rfl, hdriver⟩ | ⟨id, rfl, hid⟩
  · exact h.expr s (Array.mem_of_getElem? hs) text hdriver
  · exact (h.signalName hid).oneLine

theorem Spelled.instance (hop : op.Refers) {inst : Instance} (hinst : inst ∈ op.instances) :
    (op.copy inst).Clear where
  moduleName := h.module inst hinst
  name := h.copy inst hinst
  connection := by
    obtain ⟨i, hi⟩ := Array.mem_iff_getElem?.mp hinst
    have hfits := hop.fits hi
    intro e he
    rcases List.mem_append.mp he with he | he
    · rcases List.mem_append.mp he with he | he
      · split at he
        · obtain ⟨name, hname, rfl⟩ := List.mem_map.mp he
          refine ⟨isWord_control name hname, fun v hv => ?_⟩
          exact Option.some.inj hv ▸ (isWord_control name hname).oneLine
        · cases he
      · obtain ⟨⟨formal, actual⟩, hin, rfl⟩ := List.mem_map.mp he
        refine ⟨h.input inst hinst _ hin, fun v hv => ?_⟩
        cases actual with
        | signal id =>
            obtain ⟨s, hs, -⟩ := hfits.input hin
            exact Option.some.inj hv ▸ (h.signalName ⟨s, hs⟩).oneLine
        | constant text => exact Option.some.inj hv ▸ h.constant inst hinst _ hin text rfl
    · obtain ⟨⟨formal, signal⟩, hout, rfl⟩ := List.mem_map.mp he
      refine ⟨h.output inst hinst _ hout, fun v hv => ?_⟩
      obtain ⟨id, hid, rfl⟩ := Option.map_eq_some_iff.mp hv
      obtain rfl : signal = some id := hid
      obtain ⟨s, hs, -⟩ := hfits.output hout
      exact (h.signalName ⟨s, hs⟩).oneLine

theorem Spelled.updates (hloads : ∀ l ∈ loads, op.Has l.target ∧ op.Has l.source) :
    ∀ u ∈ op.updates loads, ClearUpdate u := by
  intro u hu
  obtain ⟨l, hl, rfl⟩ := List.mem_map.mp hu
  obtain ⟨htarget, hsource⟩ := hloads l hl
  exact ⟨h.signalName htarget, (h.signalName hsource).oneLine⟩

theorem Spelled.resets (hloads : ∀ l ∈ loads, op.Has l.target ∧ op.Has l.source) :
    ∀ u ∈ op.resets clocking loads, ClearUpdate u := by
  unfold Operator.resets
  intro u hu
  split at hu
  · cases hu
  · obtain ⟨l, hl, rfl⟩ := List.mem_map.mp hu
    exact ⟨h.signalName (hloads l hl).1, oneLine_zero _⟩

/-! ## The parts of the module -/

theorem Spelled.block (hloads : ∀ l ∈ loads, op.Has l.target ∧ op.Has l.source)
    (hne : loads ≠ []) : ∃ p : Part, p.Clear ∧ p.item = op.registerBlock clocking loads := by
  have hupdates : op.updates loads ≠ [] := mt List.map_eq_nil_iff.mp hne
  have hitem : ∀ {clocking : Clocking}, clocking ≠ .combinational →
      ∃ p : Part, p.Clear ∧ p.item = op.registerBlock clocking loads := by
    intro clocking hclocking
    have hresets : clocking ≠ .registered → op.resets clocking loads ≠ [] := by
      intro hother
      rw [Operator.resets, if_neg hother]
      exact mt List.map_eq_nil_iff.mp hne
    obtain ⟨event, hevent, hpart⟩ := (clocks_registerBlock hclocking).exists_part hresets
    exact ⟨_, .block hevent hupdates (h.resets hloads) (h.updates hloads), hpart⟩
  -- loads without a clocking of their own would go to a block of plain registers
  cases clocking with
  | combinational => exact @hitem .registered (by decide)
  | _ => exact hitem (by decide)

theorem Spelled.slice (hop : op.Refers) (hschedule : op.schedule = some schedule) {slice : Slice}
    (hslice : slice ∈ schedule.slices) {item : Item} (hitem : op.sliceItem? slice = some item) :
    ∃ p : Part, p.Clear ∧ p.item = item := by
  have hassigns : ∀ a ∈ slice.assignments.map op.assign, a.Clear := by
    intro _ hassign
    obtain ⟨a, ha, rfl⟩ := List.mem_map.mp hassign
    exact h.assign hop hschedule (List.mem_flatMap_of_mem hslice ha)
  have hcopies : ∀ c ∈ (slice.instances.filterMap (op.instances[·]?)).map op.copy, c.Clear := by
    intro _ hcopy
    obtain ⟨inst, hinst, rfl⟩ := List.mem_map.mp hcopy
    obtain ⟨i, -, hi⟩ := List.mem_filterMap.mp hinst
    exact h.instance hop (Array.mem_of_getElem? hi)
  have hitems : op.sliceItems slice = Part.cycleItems (slice.assignments.map op.assign)
      ((slice.instances.filterMap (op.instances[·]?)).map op.copy) := by
    unfold Operator.sliceItems Part.cycleItems
    rw [List.isEmpty_map, List.map_map]
    rfl
  have hitem' : (if (op.sliceItems slice).isEmpty then none
      else some (Item.commented s!"cycle {slice.cycle}" (op.sliceItems slice))) = some item := hitem
  rw [hitems] at hitem'
  split at hitem'
  next => cases hitem'
  next hne =>
    refine ⟨_, .cycle slice.cycle ?_ hassigns hcopies, Option.some.inj hitem'⟩
    by_contra hempty
    obtain ⟨hassigns', hcopies'⟩ := not_or.mp hempty
    rw [not_not.mp hassigns', not_not.mp hcopies'] at hne
    exact hne rfl

/-- The module of a finished operator is made of parts that can be told apart. -/
theorem Spelled.divided (hop : op.Refers) (hschedule : op.schedule = some schedule) :
    ∃ parts, (op.moduleOf schedule).Divided parts := by
  have hitems : ∀ item ∈ (op.moduleOf schedule).items, ∃ p : Part, p.Clear ∧ p.item = item := by
    intro item hitem
    rcases List.mem_append.mp hitem with hitem | hblock
    · rcases List.mem_append.mp hitem with hnets | hcycle
      · split at hnets
        next => cases hnets
        next hne =>
          rw [List.mem_singleton.mp hnets]
          exact ⟨_, .nets (mt List.isEmpty_iff.mpr hne) h.nets, rfl⟩
      · obtain ⟨slice, hslice, hitem⟩ := List.mem_filterMap.mp hcycle
        exact h.slice hop hschedule hslice hitem
    · obtain ⟨clocking, hne, rfl⟩ := mem_registerBlocks.mp hblock
      exact h.block (fun l hl => hop.load hschedule (List.mem_filter.mp hl).1) hne
  obtain ⟨parts, hparts, hclear⟩ := Part.exists_parts hitems
  exact ⟨parts, h.name, h.ports _, hparts, hclear⟩

end Spelled

/-- Two finished operators have the same text exactly if they have the same module. -/
theorem text_tells_module {P Q : Operator} (hP : P.Scripted) (hQ : Q.Scripted)
    (hfinished : P.isFinished = true) (hfinished' : Q.isFinished = true) (hspelled : P.Spelled)
    (hspelled' : Q.Spelled) : ∃ m m', P.toModule = .ok m ∧ Q.toModule = .ok m' ∧
      P.toVerilog = .ok m.text ∧ Q.toVerilog = .ok m'.text ∧
        (P.toVerilog = Q.toVerilog ↔ m = m') := by
  obtain ⟨schedule, hschedule⟩ := Option.isSome_iff_exists.mp hfinished
  obtain ⟨schedule', hschedule'⟩ := Option.isSome_iff_exists.mp hfinished'
  have hmodule := toModule_of_schedule hschedule
  have hmodule' := toModule_of_schedule hschedule'
  have htext : P.toVerilog = .ok (P.moduleOf schedule).text := by
    rw [toVerilog, hmodule]
    rfl
  have htext' : Q.toVerilog = .ok (Q.moduleOf schedule').text := by
    rw [toVerilog, hmodule']
    rfl
  obtain ⟨parts, hdivided⟩ := hspelled.divided hP.refers hschedule
  obtain ⟨parts', hdivided'⟩ := hspelled'.divided hQ.refers hschedule'
  refine ⟨_, _, hmodule, hmodule', htext, htext', ?_⟩
  rw [htext, htext', Except.ok.injEq]
  exact ⟨hdivided.eq_of_text hdivided', congrArg Module.text⟩

/-- The delay by one clock. -/
def delay (width : Nat) : Operator :=
  (blank 0 "delay" 4 false).after (delayScript (.ofSettings {}) (.vector width))

theorem spelled_delay {width : Nat} (hwidth : 1 ≤ width) : (delay width).Spelled := by
  obtain ⟨-, -, schedule, -, hdelay⟩ := runs_delayScript (.ofSettings {}) (.vector width)
  have hname : (delay width).name = "delay" := (identity_after _ _).2
  have hwords : IsWord "a" ∧ IsWord "a_d1" ∧ IsWord "y" := by decide
  have hword : ∀ s ∈ (delay width).flow.netlist.signals, IsWord s.name ∧
      s.width = .vector width ∧ ∀ text, s.driver = .expr text → text = "a_d1" := by
    intro s hs
    unfold delay at hs
    rw [hdelay.signals] at hs
    simp only [List.mem_toArray, List.mem_cons, List.not_mem_nil, or_false] at hs
    rcases hs with rfl | rfl | rfl
    · exact ⟨hwords.1, rfl, nofun⟩
    · exact ⟨hwords.2.1, rfl, nofun⟩
    · exact ⟨hwords.2.2, rfl, fun text htext => (Driver.expr.inj htext).symm⟩
  have hnone : ∀ inst, inst ∉ (delay width).instances := by
    intro inst hinst
    unfold delay at hinst
    rw [hdelay.instances] at hinst
    exact absurd hinst (Array.not_mem_empty inst)
  exact {
    name := by rw [hname]; decide
    signal := fun s hs => (hword s hs).1
    width := fun s hs => (hword s hs).2.1 ▸ hwidth
    expr := fun s hs text hdriver => (hword s hs).2.2 text hdriver ▸ hwords.2.1.oneLine
    copy := fun inst hinst => absurd hinst (hnone inst)
    module := fun inst hinst => absurd hinst (hnone inst)
    input := fun inst hinst => absurd hinst (hnone inst)
    constant := fun inst hinst => absurd hinst (hnone inst)
    output := fun inst hinst => absurd hinst (hnone inst) }

/-- Delays of eight and of nine bits have different texts. -/
theorem texts_of_delays : (delay 8).Spelled ∧ (delay 9).Spelled ∧
    (delay 8).isFinished = true ∧ (delay 9).isFinished = true ∧
      (delay 8).toVerilog ≠ (delay 9).toVerilog := by
  have hscripted : ∀ width, (delay width).Scripted := fun width => ⟨_, _, _, _, _, rfl⟩
  have hnets : ∀ width, ∃ schedule, (delay width).schedule = some schedule ∧
      (delay width).netDeclarations = [⟨.reg, width, "a_d1"⟩] := by
    intro width
    obtain ⟨-, -, schedule, hschedule, hdelay⟩ := runs_delayScript (.ofSettings {}) (.vector width)
    refine ⟨schedule, hschedule, ?_⟩
    unfold netDeclarations delay
    rw [hdelay.signals]
    rfl
  obtain ⟨schedule, hschedule, hnet⟩ := hnets 8
  obtain ⟨schedule', hschedule', hnet'⟩ := hnets 9
  have hfinished : (delay 8).isFinished = true := Option.isSome_iff_exists.mpr ⟨_, hschedule⟩
  have hfinished' : (delay 9).isFinished = true := Option.isSome_iff_exists.mpr ⟨_, hschedule'⟩
  have hspelled := @spelled_delay 8 (by decide)
  have hspelled' := @spelled_delay 9 (by decide)
  refine ⟨hspelled, hspelled', hfinished, hfinished', fun hsame => ?_⟩
  obtain ⟨m, m', hm, hm', -, -, htells⟩ :=
    text_tells_module (hscripted 8) (hscripted 9) hfinished hfinished' hspelled hspelled'
  rw [toModule_of_schedule hschedule, Except.ok.injEq] at hm
  rw [toModule_of_schedule hschedule', Except.ok.injEq] at hm'
  have hdeclared := congrArg Module.netDeclarations (htells.mp hsame)
  rw [← hm, ← hm', netDeclarations_moduleOf, netDeclarations_moduleOf, hnet, hnet'] at hdeclared
  exact absurd hdeclared (by decide)

end Retime.Operator
