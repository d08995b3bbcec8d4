import Retime.Operator.Instantiate
import Retime.Proofs.Operator.Consistent
import Retime.Proofs.Rows

/-! # Placing a copy

What a successful instantiation leaves: an instance whose inputs read what the wiring
names, in the cycle in which they are taken, and whose outputs are new signals.
-/

namespace Retime.Operator

open Retime.Action Dataflow

/-- An input is connected to what the wiring gives for it. -/
inductive Connects (wiring : Wiring) (cycle : Nat) (old d : Dataflow) (p : Port) :
    String × Actual → Prop where
  | constant (text : String) (bound : wiring.inputs.lookup p.name = some (.constant text)) :
      Connects wiring cycle old d p (p.name, .constant text)
  | signal (name : String) (id : SignalId)
      (bound : wiring.inputs.lookup p.name = some (.signal name))
      (reads : old.Reads d name cycle id)
      (width : ∃ s, d.netlist.signal? id = some s ∧ s.width.bits = p.width.bits) :
      Connects wiring cycle old d p (p.name, .signal id)

/-- An output is left open, or a signal of the given name is driven by it. -/
inductive Yields (wiring : Wiring) (place cycle : Nat) (d : Dataflow) (p : Port) :
    String × Option SignalId → Prop where
  | unbound (bound : wiring.outputs.lookup p.name = none) :
      Yields wiring place cycle d p (p.name, none)
  | signal (s : Signal) (bound : wiring.outputs.lookup p.name = some s.name)
      (mem : d.netlist.signal? s.id = some s) (role : s.role = .internal)
      (driver : s.driver = .inst place p.name) (cycle_eq : s.cycle = cycle)
      (width : s.width = p.width) :
      Yields wiring place cycle d p (p.name, some s.id)

/-- The instance that was placed. -/
structure Placement (lib : Library) (sub : Handle) (name : String) (wiring : Wiring)
    (op op' : Operator) (inst : Instance) : Prop where
  interface : op.subInterface lib sub = .ok inst.interface
  sub_eq : inst.sub = sub
  id_eq : inst.id = op.instances.size
  name_eq : inst.name = name
  inputCycle_eq : inst.inputCycle = op.timeline.cycle
  outputCycle_eq : inst.outputCycle = inst.inputCycle + inst.interface.depth
  connects : List.Forall₂ (Connects wiring inst.inputCycle op.flow op'.flow)
    inst.interface.inputs inst.inputs
  yields : List.Forall₂ (Yields wiring inst.id inst.outputCycle op'.flow)
    inst.interface.outputs inst.outputs
  sound : op'.flow.Sound
  extends_flow : op.flow.Extends op'.flow
  /-- The new signals are stages and those that the outputs drive. -/
  signals : ∀ {s}, op'.flow.netlist.signal? s.id = some s →
    op.flow.netlist.signal? s.id = some s ∨ s.isStage = true ∨
      s.role = .internal ∧ ∃ formal, s.driver = .inst inst.id formal ∧
        (formal, some s.id) ∈ inst.outputs
  targets : inst.targets.Nodup
  targets_ge : ∀ id ∈ inst.targets, op.flow.netlist.size ≤ id
  inputs : op'.inputs = op.inputs
  outputs : op'.outputs = op.outputs
  instances : op'.instances = op.instances.push inst

variable {op op' : Operator} {wiring : Wiring}

theorem Connects.mono {cycle : Nat} {old d d' : Dataflow} {p : Port}
    {entry : String × Actual} (h : Connects wiring cycle old d p entry) (hd : d.Sound)
    (hext : d.Extends d') : Connects wiring cycle old d' p entry := by
  cases h with
  | constant text bound => exact .constant text bound
  | signal name id bound reads width =>
      obtain ⟨s, hs, hwidth⟩ := width
      exact .signal name id bound (reads.mono hd hext) ⟨s, hext.netlist _ _ hs, hwidth⟩

theorem Yields.mono {place cycle : Nat} {d d' : Dataflow} {p : Port}
    {entry : String × Option SignalId} (h : Yields wiring place cycle d p entry)
    (hext : d.Extends d') : Yields wiring place cycle d' p entry := by
  cases h with
  | unbound bound => exact .unbound bound
  | signal s bound mem role driver cycle_eq width =>
      exact .signal s bound (hext.netlist _ _ mem) role driver cycle_eq width

/-! ## Inputs -/

theorem wp_connectInput (h : op.flow.Sound) (itf : Interface) (cycle : Nat) (p : Port) :
    (connectInput itf wiring cycle p).wp
      (fun entry op' => op.Lengthened op' ∧ Connects wiring cycle op.flow op'.flow p entry)
      (fun _ _ => True) op := by
  unfold connectInput
  split
  · trivial
  next text hbound => exact ⟨.refl h, .constant text hbound⟩
  next name hbound =>
    rw [wp_bind, wp_find]
    refine ⟨fun s hfind => ?_, fun _ _ => trivial⟩
    obtain ⟨hs, hname⟩ := h.lawful.find_ok.mp hfind
    rw [wp_ite]
    refine ⟨fun _ => trivial, fun hwidth => ?_⟩
    rw [wp_bind]
    refine (wp_read h name cycle).mono (fun id op' hop' => ?_) fun _ _ _ => trivial
    obtain ⟨hlonger, hreads⟩ := hop'
    refine ⟨hlonger, .signal name id hbound hreads ?_⟩
    -- what was read is the signal whose width was checked
    have hs' := hlonger.extends_flow.netlist _ _ hs
    obtain ⟨t, ht, hsame⟩ := hreads.width hlonger.sound hs' hname
    exact ⟨t, ht, hsame ▸ not_not.mp hwidth⟩

theorem Lengthened.connects (h : op.Lengthened op') {cycle : Nat} {d : Dataflow} {p : Port}
    {entry : String × Actual} (hd : d.Sound) (hentry : Connects wiring cycle op'.flow d p entry) :
    Connects wiring cycle op.flow d p entry := by
  cases hentry with
  | constant text bound => exact .constant text bound
  | signal name id bound reads width => exact .signal name id bound (h.reads hd reads) width

theorem wp_connectInputs (h : op.flow.Sound) (itf : Interface) (cycle : Nat)
    (ports : List Port) :
    (forEach (connectInput itf wiring cycle) ports).wp
      (fun entries op' => op.Lengthened op' ∧
        List.Forall₂ (Connects wiring cycle op.flow op'.flow) ports entries)
      (fun _ _ => True) op := by
  refine wp_forEach (fun done entries op' => op.Lengthened op' ∧
    List.Forall₂ (Connects wiring cycle op.flow op'.flow) done entries) ⟨.refl h, .nil⟩ ?_
  rintro done p rest entries op' - ⟨hlonger, hconnects⟩
  refine (wp_connectInput hlonger.sound itf cycle p).mono ?_ fun _ _ _ => trivial
  rintro entry op'' ⟨hlonger', hentry⟩
  -- the later read only lengthens lines, so what was connected before still is
  have hold := hconnects.imp fun _ _ hc => hc.mono hlonger.sound hlonger'.extends_flow
  have hnew := hlonger.connects hlonger'.sound hentry
  exact ⟨hlonger.trans hlonger', List.rel_append hold (.cons hnew .nil)⟩

/-! ## Outputs -/

/-- The declaration of the signal that an output drives. -/
def driven (place cycle : Nat) (p : Port) (name : String) : Declaration where
  name
  role := .internal
  width := p.width
  cycle
  driver := .inst place p.name

/-- What connecting outputs of the instance at `place` leaves. -/
structure Driven (wiring : Wiring) (place cycle : Nat) (op op' : Operator) (ports : List Port)
    (entries : List (String × Option SignalId)) : Prop where
  yields : List.Forall₂ (Yields wiring place cycle op'.flow) ports entries
  sound : op'.flow.Sound
  extends_flow : op.flow.Extends op'.flow
  signals : ∀ {s}, op'.flow.netlist.signal? s.id = some s →
    op.flow.netlist.signal? s.id = some s ∨
      s.role = .internal ∧ ∃ formal, s.driver = .inst place formal ∧
        (formal, some s.id) ∈ entries
  targets : (entries.filterMap (·.2)).Nodup
  targets_bound : ∀ id ∈ entries.filterMap (·.2),
    op.flow.netlist.size ≤ id ∧ id < op'.flow.netlist.size
  inputs : op'.inputs = op.inputs
  outputs : op'.outputs = op.outputs
  instances : op'.instances = op.instances

theorem driven_nil (h : op.flow.Sound) (place cycle : Nat) :
    Driven wiring place cycle op op [] [] where
  yields := .nil
  sound := h
  extends_flow := .refl _
  signals hs := .inl hs
  targets := .nil
  targets_bound id hid := by cases hid
  inputs := rfl
  outputs := rfl
  instances := rfl

section Driven

variable {place cycle : Nat} {ports : List Port} {entries : List (String × Option SignalId)}

theorem Driven.unbound (h : Driven wiring place cycle op op' ports entries) {p : Port}
    (hbound : wiring.outputs.lookup p.name = none) :
    Driven wiring place cycle op op' (ports ++ [p]) (entries ++ [(p.name, none)]) where
  yields := List.rel_append h.yields (.cons (.unbound hbound) .nil)
  sound := h.sound
  extends_flow := h.extends_flow
  signals hs := by
    rcases h.signals hs with hs | ⟨hrole, formal, hdriver, hin⟩
    · exact .inl hs
    · exact .inr ⟨hrole, formal, hdriver, List.mem_append_left _ hin⟩
  targets := by simpa using h.targets
  targets_bound := by simpa using h.targets_bound
  inputs := h.inputs
  outputs := h.outputs
  instances := h.instances

/-- One more output is connected to a signal that is declared for it. -/
theorem Driven.signal (h : Driven wiring place cycle op op' ports entries) {p : Port}
    {name : String} (hbound : wiring.outputs.lookup p.name = some name)
    (hfree : op'.flow.netlist.contains name = false) {op'' : Operator}
    (hflow : op''.flow =
      { op'.flow with netlist := op'.flow.netlist.add (driven place cycle p name) })
    (hinputs : op''.inputs = op'.inputs) (houtputs : op''.outputs = op'.outputs)
    (hinstances : op''.instances = op'.instances) :
    Driven wiring place cycle op op'' (ports ++ [p])
      (entries ++ [(p.name, some op'.flow.netlist.size)]) := by
  have hext : op'.flow.Extends op''.flow := by
    rw [hflow]
    exact extends_declare _
  have hsize : op''.flow.netlist.size = op'.flow.netlist.size + 1 := by
    rw [hflow]
    exact Netlist.size_add _
  have hgrows := h.extends_flow.netlist.size_le
  constructor
  · refine List.rel_append (h.yields.imp fun _ _ hy => hy.mono hext) (.cons ?_ .nil)
    refine .signal ⟨driven place cycle p name, op'.flow.netlist.size⟩ hbound ?_ rfl rfl rfl rfl
    rw [hflow]
    exact Netlist.signal?_add_size _
  · rw [hflow]
    exact h.sound.declare hfree (by simp [driven])
  · exact h.extends_flow.trans hext
  · intro s hs
    rw [hflow] at hs
    rcases Netlist.signal?_add_cases hs with ⟨-, rfl⟩ | hs
    · exact .inr ⟨rfl, p.name, rfl, by simp⟩
    · rcases h.signals hs with hs | ⟨hrole, formal, hdriver, hin⟩
      · exact .inl hs
      · exact .inr ⟨hrole, formal, hdriver, List.mem_append_left _ hin⟩
  · rw [List.filterMap_append]
    -- the new id is the size of the table, and the earlier targets are below it
    apply h.targets.append (by simp)
    intro id hid hlast
    obtain rfl : id = op'.flow.netlist.size := by simpa using hlast
    exact Nat.lt_irrefl _ (h.targets_bound _ hid).2
  · intro id hid
    rw [List.filterMap_append, List.mem_append] at hid
    rcases hid with hid | hid
    · have hbounds := h.targets_bound id hid
      omega
    · obtain rfl : id = op'.flow.netlist.size := by simpa using hid
      omega
  · exact hinputs.trans h.inputs
  · exact houtputs.trans h.outputs
  · exact hinstances.trans h.instances

end Driven

theorem wp_connectOutputs (h : op.flow.Sound) (place cycle : Nat) (ports : List Port) :
    (forEach (connectOutput wiring place cycle) ports).wp
      (fun entries op' => Driven wiring place cycle op op' ports entries)
      (fun _ _ => True) op := by
  refine wp_forEach (fun done entries op' => Driven wiring place cycle op op' done entries)
    (driven_nil h place cycle) ?_
  intro done p rest entries op' _ hdriven
  unfold connectOutput
  split
  next hbound => exact hdriven.unbound hbound
  next name hbound =>
    rw [wp_bind, wp_onFlow, wp_declare]
    refine ⟨fun _ => trivial, fun hfree => ?_⟩
    rw [wp_bind, wp_onTimeline]
    refine ⟨fun t _ => ?_, fun _ _ => trivial⟩
    exact hdriven.signal hbound hfree rfl rfl rfl rfl

/-! ## The instance -/

theorem laterCycle_ok {cycle offset later : Nat} (h : laterCycle cycle offset = .ok later) :
    later = cycle + offset := by
  unfold laterCycle at h
  split at h
  · exact (Except.ok.inj h).symm
  · cases h

/-- The instance of a copy whose inputs and outputs were connected. -/
theorem Driven.placement {lib : Library} {sub : Handle} {name : String} {itf : Interface}
    {outputCycle : Nat} {inputs : List (String × Actual)}
    {outputs : List (String × Option SignalId)} {op₁ op₂ : Operator}
    (hitf : op.subInterface lib sub = .ok itf) (hlonger : op.Lengthened op₁)
    (hconnects : List.Forall₂ (Connects wiring op.timeline.cycle op.flow op₁.flow)
      itf.inputs inputs)
    (hdriven : Driven wiring op.instances.size outputCycle op₁ op₂ itf.outputs outputs)
    (hcycle : outputCycle = op.timeline.cycle + itf.depth) {inst : Instance}
    (hinst : inst = ⟨op.instances.size, name, sub, itf, op.timeline.cycle, outputCycle, inputs,
      outputs⟩) :
    Placement lib sub name wiring op { op₂ with instances := op₂.instances.push inst } inst := by
  subst hinst
  exact {
    interface := hitf
    sub_eq := rfl
    id_eq := rfl
    name_eq := rfl
    inputCycle_eq := rfl
    outputCycle_eq := hcycle
    connects := hconnects.imp fun _ _ hc => hc.mono hlonger.sound hdriven.extends_flow
    yields := hdriven.yields
    sound := hdriven.sound
    extends_flow := hlonger.extends_flow.trans hdriven.extends_flow
    signals := fun hs => by
      rcases hdriven.signals hs with hs | hs
      · exact (hlonger.signals hs).imp_right .inl
      · exact .inr (.inr hs)
    targets := hdriven.targets
    targets_ge := fun id hid =>
      Nat.le_trans hlonger.extends_flow.netlist.size_le (hdriven.targets_bound id hid).1
    inputs := hdriven.inputs.trans hlonger.inputs
    outputs := hdriven.outputs.trans hlonger.outputs
    instances := by
      rw [← hlonger.instances, ← hdriven.instances] }

theorem wp_instantiate (h : op.flow.Sound) (lib : Library) (sub : Handle) (name : String) :
    (instantiate lib sub name wiring).wp
      (fun _ op' => ∃ inst, Placement lib sub name wiring op op' inst) (fun _ _ => True) op := by
  refine wp_instantiate_of (fun itf cycle hadmits => ?_) fun _ _ => trivial
  refine (wp_connectInputs h itf _ itf.inputs).mono ?_ fun _ _ _ => trivial
  rintro inputs op₁ ⟨hlonger, hconnects⟩
  refine (wp_connectOutputs hlonger.sound _ _ itf.outputs).mono ?_ fun _ _ _ => trivial
  intro outputs op₂ hdriven
  exact ⟨_, hdriven.placement hadmits.interface hlonger hconnects (laterCycle_ok hadmits.later) rfl⟩

/-- The instance fits the operator it was placed in. -/
theorem Placement.fits {lib : Library} {sub : Handle} {name : String} {inst : Instance}
    (h : Placement lib sub name wiring op op' inst) :
    inst.Fits op.instances.size op'.flow.netlist where
  id_eq := h.id_eq
  inputs_eq := by
    refine (map_eq_map_of_forall₂ h.connects fun p entry hconnects => ?_).symm
    cases hconnects <;> rfl
  outputs_eq := by
    refine (map_eq_map_of_forall₂ h.yields fun p entry hyields => ?_).symm
    cases hyields <;> rfl
  outputCycle_eq := h.outputCycle_eq
  input {formal id} hin := by
    obtain ⟨p, -, hconnects⟩ := exists_left_of_forall₂ h.connects hin
    cases hconnects with
    | signal name id bound reads width =>
        obtain ⟨s, hs, -, hrole, hcarries, -⟩ := reads
        obtain ⟨hroot, hnone, -⟩ := h.sound.root_spec hs
        obtain ⟨t, ht, -, hrole', hcycle, -⟩ :=
          hcarries.signal h.sound hroot hnone (h.sound.root_role hs hrole)
        exact ⟨t, ht, hrole', hcycle⟩
  output {formal id} hout := by
    obtain ⟨p, -, hyields⟩ := exists_left_of_forall₂ h.yields hout
    cases hyields with
    | signal s bound mem role driver cycle_eq width =>
        exact ⟨s, mem, role, h.id_eq ▸ driver, cycle_eq⟩

theorem Placement.instances_kept {lib : Library} {sub : Handle} {name : String}
    {inst inst' : Instance} (h : Placement lib sub name wiring op op' inst) {i : Nat}
    (hi : op.instances[i]? = some inst') : op'.instances[i]? = some inst' := by
  rw [h.instances, Array.getElem?_push, if_neg]
  · exact hi
  · exact Nat.ne_of_lt (Array.getElem?_eq_some_iff.mp hi).1

theorem Placement.consistent {lib : Library} {sub : Handle} {name : String} {inst : Instance}
    (h : Placement lib sub name wiring op op' inst) (hop : op.Consistent) : op'.Consistent := by
  have hext := h.extends_flow.netlist
  have hlast : op'.instances[op.instances.size]? = some inst := by
    rw [h.instances]
    exact Array.getElem?_push_size
  constructor
  · exact h.sound
  · intro s hs
    rcases h.signals hs with hs' | hstage | ⟨hrole, formal, hdriver, -⟩
    · exact hop.driven hs'
    · obtain ⟨hrole, r, depth, hdriver⟩ := h.sound.wellDriven_stage hs hstage
      rw [hrole, hdriver]
      exact .stage r depth
    · rw [hrole, hdriver]
      exact .inst inst.id formal
  · intro s hs hinput
    rcases h.signals hs with hs' | hstage | ⟨hrole, -⟩
    · rw [h.inputs]
      exact hop.input hs' hinput
    · rw [(h.sound.wellDriven_stage hs hstage).1] at hinput
      cases hinput
    · rw [hrole] at hinput
      cases hinput
  · intro s hs houtput
    rcases h.signals hs with hs' | hstage | ⟨hrole, -⟩
    · rw [h.outputs]
      exact hop.output hs' houtput
    · rw [(h.sound.wellDriven_stage hs hstage).1] at houtput
      cases houtput
    · rw [hrole] at houtput
      cases houtput
  · intro out hout
    rw [h.outputs] at hout
    obtain ⟨s, hs, hrole⟩ := hop.output_role hout
    exact ⟨s, hext _ _ hs, hrole⟩
  · intro i inst' hi
    rw [h.instances, Array.getElem?_push] at hi
    split at hi
    next hi' =>
      cases hi
      exact hi' ▸ h.fits
    · exact (hop.fits hi).mono hext
  · intro s i formal hs hdriver
    rcases h.signals hs with hs' | hstage | ⟨-, formal', hdriver', hin⟩
    · obtain ⟨inst', hi, hout⟩ := hop.placed hs' hdriver
      exact ⟨inst', h.instances_kept hi, hout⟩
    · simp [Signal.isStage, hdriver] at hstage
    · rw [hdriver'] at hdriver
      cases hdriver
      exact ⟨inst, h.id_eq ▸ hlast, hin⟩
  · rw [h.instances, Array.toList_push, List.flatMap_append]
    apply hop.targets.append (by simpa using h.targets)
    intro id hold hnew
    obtain ⟨inst', hinst', hid⟩ := List.mem_flatMap.mp hold
    obtain ⟨i, hi⟩ := List.mem_iff_getElem?.mp hinst'
    rw [Array.getElem?_toList] at hi
    have hlt := (hop.fits hi).lt_size hid
    have hge := h.targets_ge id (by simpa using hnew)
    exact absurd hge (Nat.not_le_of_lt hlt)

end Retime.Operator
