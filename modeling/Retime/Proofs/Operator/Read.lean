import Retime.Proofs.Dataflow.Resolve
import Retime.Proofs.Operator.Script

/-! # Reading

What a read that succeeds leaves: the answer carries the value of the signal that was
named, and the operator differs by further stages only.
-/

namespace Retime

open Retime.Action

namespace Dataflow

variable {d d' : Dataflow}

/-- The root of a signal stays its root. -/
theorem Extends.root_eq (h : d.Extends d') (hd : d.Sound) {s : Signal}
    (hs : d.netlist.signal? s.id = some s) : d'.netlist.root s = d.netlist.root s := by
  unfold Netlist.root
  split
  next r depth hdriver =>
    obtain ⟨k, -, hk⟩ := hd.place hs hdriver
    obtain ⟨root, hroot, -⟩ := hd.stage hk
    rw [hroot, h.netlist _ _ hroot]
  · rfl

/-- A name keeps its signal. -/
theorem Extends.find (h : d.Extends d') (hd : d.Sound) (hd' : d'.Sound) {name : String}
    {s : Signal} (hs : d.netlist.find name = .ok s) : d'.netlist.find name = .ok s := by
  obtain ⟨hmem, hname⟩ := hd.lawful.find_ok.mp hs
  exact hd'.lawful.find_ok.mpr ⟨h.netlist _ _ hmem, hname⟩

/-- In `cycle`, the signal `id` carries the value of the signal `name`, whose root was there
before, in `old`. -/
inductive Reads (old d : Dataflow) (name : String) (cycle : Nat) (id : SignalId) : Prop where
  | intro (s : Signal) (mem : d.netlist.signal? s.id = some s) (name_eq : s.name = name)
      (role : s.role ≠ .output) (carries : d.Carries (d.netlist.root s) cycle id)
      (root_mem : old.netlist.signal? (d.netlist.root s).id = some (d.netlist.root s))

theorem Reads.mono {old : Dataflow} {name : String} {cycle : Nat} {id : SignalId}
    (h : old.Reads d name cycle id) (hd : d.Sound) (hext : d.Extends d') :
    old.Reads d' name cycle id := by
  obtain ⟨s, hs, hname, hrole, hcarries, hroot⟩ := h
  refine ⟨s, hext.netlist _ _ hs, hname, hrole, ?_, ?_⟩
  · rw [hext.root_eq hd hs]
    exact hcarries.mono hext
  · rwa [hext.root_eq hd hs]

/-- What carries a value is valid in that cycle and has the same root. -/
theorem Carries.signal {root : Signal} {cycle : Nat} {id : SignalId}
    (h : d.Carries root cycle id) (hd : d.Sound)
    (hroot : d.netlist.signal? root.id = some root) (hnone : root.isStage = false)
    (hrole : root.role ≠ .output) : ∃ s, d.netlist.signal? id = some s ∧ s.id = id ∧
      s.role ≠ .output ∧ s.cycle = cycle ∧ d.netlist.root s = root := by
  rcases h with ⟨rfl, rfl⟩ | ⟨k, rfl, hk⟩
  · refine ⟨root, hroot, rfl, hrole, rfl, ?_⟩
    unfold Netlist.root
    split
    next r depth hdriver => simp [Signal.isStage, hdriver] at hnone
    · rfl
  · obtain ⟨root', hroot', -, -, hs⟩ := hd.stage hk
    obtain rfl : root = root' := Option.some.inj (hroot.symm.trans hroot')
    refine ⟨_, hs, rfl, by simp [stageOf], rfl, ?_⟩
    simp [Netlist.root, stageOf, hroot]

/-- A signal has the width of its root. -/
theorem Sound.width_root (h : d.Sound) {s : Signal} (hs : d.netlist.signal? s.id = some s) :
    (d.netlist.root s).width = s.width := by
  unfold Netlist.root
  split
  next r depth hdriver =>
    obtain ⟨k, -, hk⟩ := h.place hs hdriver
    obtain ⟨root, hroot, -, -, hs'⟩ := h.stage hk
    have hwidth := congrArg (·.width) (Option.some.inj (hs.symm.trans hs'))
    simpa [hroot, stageOf] using hwidth.symm
  · rfl

/-- What carries a value has the width of the signal that was read. -/
theorem Reads.width {old : Dataflow} {name : String} {cycle : Nat} {id : SignalId}
    (h : old.Reads d name cycle id) (hd : d.Sound) {s : Signal}
    (hs : d.netlist.signal? s.id = some s) (hname : s.name = name) :
    ∃ t, d.netlist.signal? id = some t ∧ t.width = s.width := by
  obtain ⟨s', hs', hname', hrole, hcarries, -⟩ := h
  obtain rfl := hd.lawful.eq_of_name hs hs' (hname.trans hname'.symm)
  obtain ⟨hroot, hnone, -⟩ := hd.root_spec hs
  obtain ⟨t, ht, rfl, -, -, hsame⟩ := hcarries.signal hd hroot hnone (hd.root_role hs hrole)
  exact ⟨t, ht, by rw [← hd.width_root ht, hsame, hd.width_root hs]⟩

end Dataflow

namespace Operator

/-- The operator was read from: it has further stages, and otherwise the same parts. -/
structure Lengthened (op op' : Operator) : Prop where
  sound : op'.flow.Sound
  extends_flow : op.flow.Extends op'.flow
  signals : ∀ {id s}, op'.flow.netlist.signal? id = some s →
    op.flow.netlist.signal? id = some s ∨ s.isStage = true
  inputs : op'.inputs = op.inputs
  outputs : op'.outputs = op.outputs
  instances : op'.instances = op.instances

variable {op op' op'' : Operator}

theorem Lengthened.refl (h : op.flow.Sound) : op.Lengthened op where
  sound := h
  extends_flow := .refl _
  signals hs := .inl hs
  inputs := rfl
  outputs := rfl
  instances := rfl

theorem Lengthened.trans (h : op.Lengthened op') (h' : op'.Lengthened op'') :
    op.Lengthened op'' where
  sound := h'.sound
  extends_flow := h.extends_flow.trans h'.extends_flow
  signals hs := by
    rcases h'.signals hs with hs | hs
    · exact h.signals hs
    · exact .inr hs
  inputs := h'.inputs.trans h.inputs
  outputs := h'.outputs.trans h.outputs
  instances := h'.instances.trans h.instances

/-- Further stages are no roots. -/
theorem Lengthened.reads (h : op.Lengthened op') {d : Dataflow} {name : String} {cycle : Nat}
    {id : SignalId} (hd : d.Sound) (hreads : op'.flow.Reads d name cycle id) :
    op.flow.Reads d name cycle id := by
  obtain ⟨s, hs, hname, hrole, hcarries, hroot⟩ := hreads
  refine ⟨s, hs, hname, hrole, hcarries, ?_⟩
  rcases h.signals hroot with hold | hstage
  · exact hold
  · rw [(hd.root_spec hs).2.1] at hstage
    cases hstage

/-- What a successful read leaves. -/
theorem wp_read (h : op.flow.Sound) (name : String) (cycle : Nat) :
    (read name cycle).wp (fun id op' => op.Lengthened op' ∧ op.flow.Reads op'.flow name cycle id)
      (fun _ _ => True) op := by
  unfold read
  rw [wp_bind, wp_find]
  refine ⟨fun s hfind => ?_, fun _ _ => trivial⟩
  obtain ⟨hs, hname⟩ := h.lawful.find_ok.mp hfind
  rw [wp_ite]
  refine ⟨fun _ => trivial, fun hrole => ?_⟩
  rw [wp_bind, wp_onFlow]
  refine (Dataflow.wp_resolve h hs hrole cycle).mono (fun id d' hd' => ?_) fun _ _ _ => trivial
  have hext := hd'.lengthens.toExtends
  rw [wp_bind, wp_modify, wp_pure]
  refine ⟨⟨hd'.sound, hext, hd'.lengthens.signals, rfl, rfl, rfl⟩, ?_⟩
  refine ⟨s, hext.netlist _ _ hs, hname, hrole, ?_, ?_⟩
  · rw [hext.root_eq h hs]
    exact hd'.carries
  · rw [hext.root_eq h hs]
    exact (h.root_spec hs).1

/-- A consumed identifier is the name of what carries the value in the current cycle. -/
theorem wp_consume (h : op.flow.Sound) (name : String) :
    (consume name).wp (fun answer op' => op.Lengthened op' ∧ ∃ id,
        op.flow.Reads op'.flow name op.timeline.cycle id ∧ answer = op'.flow.netlist.name id)
      (fun _ _ => True) op := by
  unfold consume
  rw [wp_bind, wp_get, wp_bind]
  refine (wp_read h name op.timeline.cycle).mono (fun id op' hop' => ?_) fun _ _ _ => trivial
  rw [wp_bind, wp_get, wp_pure]
  exact ⟨hop'.1, id, hop'.2, rfl⟩

end Operator

end Retime
