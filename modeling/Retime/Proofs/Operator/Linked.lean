import Retime.Proofs.Library.Arena
import Retime.Proofs.Operator.Completed
import Retime.Proofs.Operator.Frame
import Retime.Proofs.Operator.Schedule

/-! # Linked operators

However an operator was described in a library, and whichever calls failed, each of its
instances shows the interface of a committed operator and has its ports connected in their
order, to constants or to signals of their widths. A finished one has its schedule laid out.
-/

namespace Retime

/-- An input of an instance leads to a constant, or to a signal of the width of its port
that is valid when the inputs are taken. -/
inductive Takes (n : Netlist) (cycle : Nat) (p : Port) : String × Actual → Prop where
  | constant (text : String) : Takes n cycle p (p.name, .constant text)
  | signal (s : Signal) (mem : n.signal? s.id = some s) (role : s.role ≠ .output)
      (cycle_eq : s.cycle = cycle) (width : s.width.bits = p.width.bits) :
      Takes n cycle p (p.name, .signal s.id)

/-- An output of an instance is left open or leads to a signal of the width of its port. -/
inductive Gives (n : Netlist) (p : Port) : String × Option SignalId → Prop where
  | unbound : Gives n p (p.name, none)
  | signal (s : Signal) (mem : n.signal? s.id = some s) (role : s.role = .internal)
      (width : s.width.bits = p.width.bits) : Gives n p (p.name, some s.id)

/-- The instance at `place` copies a committed operator, port by port. -/
structure Instance.Linked (inst : Instance) (lib : Library) (n : Netlist) (place : Nat) :
    Prop where
  id_eq : inst.id = place
  interface : lib.interface inst.sub = .ok inst.interface
  inputs : List.Forall₂ (Takes n inst.inputCycle) inst.interface.inputs inst.inputs
  outputs : List.Forall₂ (Gives n) inst.interface.outputs inst.outputs

theorem Takes.mono {n n' : Netlist} {cycle : Nat} {p : Port} {entry : String × Actual}
    (h : Takes n cycle p entry) (hext : n.Extends n') : Takes n' cycle p entry := by
  cases h with
  | constant text => exact .constant text
  | signal s mem role cycle_eq width => exact .signal s (hext _ _ mem) role cycle_eq width

theorem Gives.mono {n n' : Netlist} {p : Port} {entry : String × Option SignalId}
    (h : Gives n p entry) (hext : n.Extends n') : Gives n' p entry := by
  cases h with
  | unbound => exact .unbound
  | signal s mem role width => exact .signal s (hext _ _ mem) role width

theorem Instance.Linked.mono {inst : Instance} {lib lib' : Library} {n n' : Netlist}
    {place : Nat} (h : inst.Linked lib n place) (hlib : lib.Persists lib')
    (hext : n.Extends n') : inst.Linked lib' n' place where
  id_eq := h.id_eq
  interface := hlib.interface h.interface
  inputs := h.inputs.imp fun _ _ htakes => htakes.mono hext
  outputs := h.outputs.imp fun _ _ hgives => hgives.mono hext

/-- What is placed is linked. -/
theorem Operator.Placement.linked {lib : Library} {sub : Handle} {name : String}
    {wiring : Wiring} {op op' : Operator} {inst : Instance}
    (h : Placement lib sub name wiring op op' inst) :
    inst.Linked lib op'.flow.netlist op.instances.size where
  id_eq := h.id_eq
  interface := by
    have hitf := h.interface
    unfold subInterface at hitf
    split at hitf
    · cases hitf
    · rw [h.sub_eq]
      exact hitf
  inputs := by
    apply h.connects.imp
    intro p entry hconnects
    cases hconnects with
    | constant text bound => exact .constant text
    | signal name id bound reads width =>
        obtain ⟨t, ht, hwidth⟩ := width
        obtain ⟨s, hs, -, hrole, hcarries, -⟩ := reads
        obtain ⟨hroot, hnone, -⟩ := h.sound.root_spec hs
        obtain ⟨t', ht', rfl, hrole', hcycle, -⟩ :=
          hcarries.signal h.sound hroot hnone (h.sound.root_role hs hrole)
        obtain rfl := Option.some.inj (ht.symm.trans ht')
        exact .signal t ht hrole' hcycle hwidth
  outputs := by
    apply h.yields.imp
    intro p entry hyields
    cases hyields with
    | unbound bound => exact .unbound
    | signal s bound mem role driver cycle_eq width =>
        exact .signal s mem role (congrArg Width.bits width)

namespace Operator

structure Linked (op : Operator) (lib : Library) : Prop where
  sound : op.Sound
  instances : ∀ {i : Nat} {inst}, op.instances[i]? = some inst →
    inst.Linked lib op.flow.netlist i
  /-- A schedule was laid out for the operator as it is now. -/
  schedule : ∀ {s}, op.schedule = some s →
    ∃ exposed, LaidOut op s.depth exposed s ∧ exposed.length = op.outputs.size

variable {op op' : Operator} {lib lib' : Library} {c : Call}

theorem linked_blank (lib : Library) (handle : Handle) (name : String) (period : Float)
    (pipelined : Bool) : (blank handle name period pipelined).Linked lib where
  sound := (consistent_blank handle name period pipelined).sound
  instances hi := by simp [blank] at hi
  schedule hs := by simp [blank] at hs

theorem Linked.mono (h : op.Linked lib) (hlib : lib.Persists lib') : op.Linked lib' where
  sound := h.sound
  instances hi := (h.instances hi).mono hlib (.refl _)
  schedule := h.schedule

theorem Linked.of_mem (h : op.Linked lib) {inst : Instance} (hinst : inst ∈ op.instances) :
    ∃ place, inst.Linked lib op.flow.netlist place := by
  obtain ⟨i, hi⟩ := Array.mem_iff_getElem?.mp hinst
  exact ⟨i, h.instances hi⟩

/-- Instances of a linked operator copy committed ones. -/
theorem Linked.committed (h : op.Linked lib) {inst : Instance} (hinst : inst ∈ op.instances) :
    ∃ sub, lib.operator? inst.sub = some sub ∧ sub.interface? = some inst.interface := by
  obtain ⟨place, hlinked⟩ := h.of_mem hinst
  exact Library.interface_eq_ok.mp hlinked.interface

/-- Every call, whether it succeeds or fails, leaves a linked operator. -/
theorem Linked.step (h : op.Linked lib) (c : Call) : (op.step (lib, c)).Linked lib := by
  obtain ⟨hsound, hevolves⟩ := evolves_step h.sound (lib, c)
  have hext := (hevolves.extends h.sound.flow).netlist
  refine ⟨hsound, fun {i inst} hi => ?_, fun {schedule} hschedule => ?_⟩
  · rcases placement_of_step h.sound (lib, c) with hsame | ⟨sub, name, wiring, inst', -, hplaced⟩
    · exact (h.instances (hsame ▸ hi)).mono (.refl lib) hext
    · rw [hplaced.instances, Array.getElem?_push] at hi
      split at hi
      next hlast =>
        cases hi
        exact hlast ▸ hplaced.linked
      · exact (h.instances hi).mono (.refl lib) hext
  · rcases finished_of_step h.sound (lib, c) hschedule with hsame | ⟨exposed, hfinished⟩
    · rw [hsame] at hschedule ⊢
      exact h.schedule hschedule
    · have hlaid := laidOut hfinished.layOut
      refine ⟨exposed, hlaid.depth_eq.symm ▸ hlaid, ?_⟩
      rw [hfinished.aligned.outputs, ← hfinished.exposes.length_eq, Array.length_toList]

end Operator

end Retime
