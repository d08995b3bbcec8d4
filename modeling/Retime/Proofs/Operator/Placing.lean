import Retime.Proofs.Operator.Binding

/-! # The steps of an instantiation

An instantiation that succeeds connects its inputs, then its outputs, and enters the instance
last. What it does to the signals, the lines and the timeline is what these steps do.
-/

namespace Retime.Operator

open Retime.Action Dataflow

/-- The instance `inst` is placed in `op`: connecting its inputs leads to `mid`, and connecting its
outputs to `last`, where the instance is entered. -/
structure Instantiates (lib : Library) (sub : Handle) (name : String) (wiring : Wiring)
    (op : Operator) (inst : Instance) (mid last : Operator) : Prop where
  interface : op.subInterface lib sub = .ok inst.interface
  checked : wiring.check inst.interface = .ok ()
  name_new : ∀ other ∈ op.instances, other.name ≠ name
  later : laterCycle op.timeline.cycle inst.interface.depth = .ok inst.outputCycle
  bound : Bound wiring op.timeline.cycle op mid inst.interface.inputs inst.inputs
  driven : Driven wiring op.instances.size inst.outputCycle mid last inst.interface.outputs
    inst.outputs
  drove : Drove wiring op.instances.size inst.outputCycle mid last inst.interface.outputs
    inst.outputs
  inst_eq : inst = ⟨op.instances.size, name, sub, inst.interface, op.timeline.cycle,
    inst.outputCycle, inst.inputs, inst.outputs⟩

/-- The operator with one more instance. -/
def withInstance (op : Operator) (inst : Instance) : Operator :=
  { op with instances := op.instances.push inst }

variable {lib : Library} {sub : Handle} {name : String} {wiring : Wiring} {op mid last : Operator}
  {inst : Instance}

/-- Where the wiring names no constant, inputs are connected to signals. -/
theorem signals_of_connects {cycle : Nat} {old d : Dataflow} {ports : List Port}
    {entries : List (String × Actual)}
    (hconnects : List.Forall₂ (Connects wiring cycle old d) ports entries)
    (hinputs : ∀ entry ∈ wiring.inputs, ∃ signal, entry.2 = .signal signal) :
    ∀ entry ∈ entries, ∃ id, entry.2 = .signal id ∧ ∃ s, d.netlist.signal? id = some s := by
  intro entry hentry
  obtain ⟨p, -, hconnects⟩ := exists_left_of_forall₂ hconnects hentry
  cases hconnects with
  | constant text bound =>
      obtain ⟨before, after, hentries, -⟩ := List.lookup_eq_some_iff.mp bound
      obtain ⟨signal, hsignal⟩ := hinputs (p.name, .constant text) (by simp [hentries])
      cases hsignal
  | signal signal id bound reads width =>
      obtain ⟨s, hs, -⟩ := width
      exact ⟨id, rfl, s, hs⟩

theorem wp_instantiate_steps (h : op.flow.Sound) (lib : Library) (sub : Handle) (name : String)
    (wiring : Wiring) : (instantiate lib sub name wiring).wp
      (fun _ op' => ∃ inst mid last, Instantiates lib sub name wiring op inst mid last ∧
        op' = last.withInstance inst)
      (fun _ _ => True) op := by
  refine wp_instantiate_of (fun itf cycle hadmits => ?_) fun _ _ => trivial
  refine (wp_connectInputs_exact h itf itf.inputs).mono ?_ fun _ _ _ => trivial
  intro inputs mid hbound
  refine ((wp_connectOutputs hbound.lengthened.sound _ _ itf.outputs).and
    (wp_connectOutputs_exact mid wiring _ _ itf.outputs)).mono ?_ fun _ _ _ => trivial
  rintro outputs last ⟨hdriven, hdrove⟩
  have hnew : ∀ other ∈ op.instances, other.name ≠ name := by
    simpa [Array.forall_mem_iff_forall_getElem] using hadmits.free
  exact ⟨_, mid, last, ⟨hadmits.interface, hadmits.checked, hnew, hadmits.later, hbound, hdriven,
    hdrove, rfl⟩, rfl⟩

section Instantiates

variable (h : Instantiates lib sub name wiring op inst mid last)
include h

theorem Instantiates.id_eq : inst.id = op.instances.size := by
  rw [h.inst_eq]

theorem Instantiates.name_eq : inst.name = name := by
  rw [h.inst_eq]

theorem Instantiates.placement : Placement lib sub name wiring op (last.withInstance inst) inst :=
  h.driven.placement h.interface h.bound.lengthened h.bound.connects (laterCycle_ok h.later)
    h.inst_eq

theorem Instantiates.instances : (last.withInstance inst).instances = op.instances.push inst :=
  h.placement.instances

theorem Instantiates.schedule : (last.withInstance inst).schedule = op.schedule :=
  h.drove.same.schedule.trans h.bound.same.schedule

theorem Instantiates.cycle_eq : (last.withInstance inst).timeline.cycle = op.timeline.cycle :=
  (Timeline.cycle_of_arriveAll h.drove.timeline).trans (congrArg _ h.bound.timeline_eq)

/-- New signals are the missing stages and, after them, those that the outputs drive. -/
theorem Instantiates.signals : ∃ stages outs,
    last.flow.netlist.signals.toList = op.flow.netlist.signals.toList ++ stages ++ outs ∧
      mid.flow.netlist.signals.toList = op.flow.netlist.signals.toList ++ stages ∧
      (∀ s ∈ stages, ∃ root depth, op.flow.netlist.signal? root.id = some root ∧
        s.toDeclaration = stageOf root (op.flow.stem root) depth) ∧
      outs.map (·.toDeclaration) =
        drivenBy wiring op.instances.size inst.outputCycle inst.interface.outputs := by
  obtain ⟨stages, hsupplies⟩ := h.bound.supplies
  obtain ⟨outs, hsignals, houts, -⟩ := h.drove.signals
  refine ⟨stages, outs, by rw [hsignals, hsupplies.signals], hsupplies.signals, fun s hs => ?_,
    houts⟩
  have hmissing := (hsupplies.mem_new _).mp (List.mem_map_of_mem hs)
  generalize s.toDeclaration = decl at hmissing
  cases hmissing with
  | intro mem depth beyond within => exact ⟨_, depth, hsupplies.root_mem _ mem, rfl⟩

theorem Instantiates.stem_eq (r : SignalId) : (last.flow.line r).stem = (op.flow.line r).stem := by
  obtain ⟨stages, hsupplies⟩ := h.bound.supplies
  rw [← hsupplies.stem_eq r, line, line, h.drove.lines]

end Instantiates

end Retime.Operator
