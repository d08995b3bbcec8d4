import Retime.Proofs.Library.Latency
import Retime.Proofs.Operator.Placing
import Retime.Proofs.Timeline.Rising

/-! # The effect of an instantiation

An instantiation that succeeds appends one instance and, for its ports, the stages that its
inputs wait for and the signals that its outputs drive. Nothing else is added, nothing is
changed, and in whatever order the connections were made, the effect is the same.
-/

namespace Retime

/-! ## Connections -/

/-- The formals that are connected. -/
def Wiring.formals (wiring : Wiring) : List String :=
  wiring.inputs.map (·.1) ++ wiring.outputs.map (·.1)

/-- The connections are made to ports of the interface, to each port once at most and to every
input. -/
structure Wiring.Matches (wiring : Wiring) (itf : Interface) : Prop where
  inputs : ∀ entry ∈ wiring.inputs, ∃ p ∈ itf.inputs, p.name = entry.1
  outputs : ∀ entry ∈ wiring.outputs, ∃ p ∈ itf.outputs, p.name = entry.1
  distinct : wiring.formals.Nodup
  complete : ∀ p ∈ itf.inputs, p.name ∈ wiring.formals

namespace Wiring

variable {wiring : Wiring} {itf : Interface}

/-- Checked formals are ports, and no two of them are the same. -/
theorem checkFormals_eq_ok {direction : Direction} {ports : List Port}
    {formals seen seen' : List String} (hseen : seen.Nodup) :
    checkFormals itf direction ports seen formals = .ok seen' ↔
      (∀ formal ∈ formals, ∃ p ∈ ports, p.name = formal) ∧ (formals.reverse ++ seen).Nodup ∧
        seen' = formals.reverse ++ seen := by
  induction formals generalizing seen with
  | nil => simp [checkFormals, hseen, eq_comm]
  | cons formal formals ih =>
      have happend : (formal :: formals).reverse ++ seen = formals.reverse ++ formal :: seen := by
        simp
      rw [checkFormals, happend, List.forall_mem_cons]
      split
      next hport =>
        have hnone : ¬ ∃ p ∈ ports, p.name = formal := by simpa using hport
        simp [hnone]
      next hport =>
        have hsome : ∃ p ∈ ports, p.name = formal := by simpa using hport
        split
        next hold =>
          have hrepeated : ¬ (formals.reverse ++ formal :: seen).Nodup := fun hnodup =>
            (List.nodup_cons.mp hnodup.of_append_right).1 hold
          simp [hrepeated]
        next hnew => simp [ih (List.nodup_cons.mpr ⟨hnew, hseen⟩), hsome]

theorem check_eq_ok : wiring.check itf = .ok () ↔ wiring.Matches itf := by
  have hformals : (wiring.outputs.map (·.1)).reverse ++ (wiring.inputs.map (·.1)).reverse =
      wiring.formals.reverse := List.reverse_append.symm
  constructor
  · intro h
    simp only [check, bind, Except.bind] at h
    split at h
    · cases h
    next seen hinputs =>
      obtain ⟨hin, hnodup, rfl⟩ := (checkFormals_eq_ok List.nodup_nil).mp hinputs
      split at h
      · cases h
      next seen' houtputs =>
        obtain ⟨hout, hnodup', rfl⟩ := (checkFormals_eq_ok hnodup).mp houtputs
        rw [List.append_nil, hformals] at hnodup' h
        refine ⟨fun entry hentry => hin _ (List.mem_map_of_mem hentry),
          fun entry hentry => hout _ (List.mem_map_of_mem hentry), List.nodup_reverse.mp hnodup',
          fun p hp => ?_⟩
        split at h
        · cases h
        next hall => simpa using List.find?_eq_none.mp hall p hp
  · intro h
    have hnodup := List.nodup_reverse.mpr h.distinct
    rw [← hformals] at hnodup
    have hinputs : checkFormals itf .input itf.inputs [] (wiring.inputs.map (·.1)) = .ok _ :=
      (checkFormals_eq_ok List.nodup_nil).mpr
        ⟨List.forall_mem_map.mpr h.inputs, by simpa using h.distinct.of_append_left, rfl⟩
    have houtputs : checkFormals itf .output itf.outputs _ (wiring.outputs.map (·.1)) = .ok _ :=
      (checkFormals_eq_ok hnodup.of_append_right).mpr
        ⟨List.forall_mem_map.mpr h.outputs, hnodup, rfl⟩
    have hall : itf.inputs.find? (fun p => p.name ∉ wiring.formals.reverse) = none := by
      simpa using h.complete
    rw [List.append_nil] at hinputs
    simp only [check, hinputs, houtputs, hformals, hall, bind, Except.bind]

/-- Of connections with different formals, the order does not matter. -/
theorem lookup_iff_mem {α : Type} {entries : List (String × α)}
    (h : (entries.map (·.1)).Nodup) {formal : String} {a : α} :
    entries.lookup formal = some a ↔ (formal, a) ∈ entries := by
  induction entries with
  | nil => simp
  | cons entry entries ih =>
      obtain ⟨hnew, hrest⟩ : entry.1 ∉ entries.map (·.1) ∧ (entries.map (·.1)).Nodup :=
        List.nodup_cons.mp h
      rw [List.lookup_cons, List.mem_cons]
      cases hsame : formal == entry.1 with
      | true =>
          have hfirst := eq_of_beq hsame
          have hnot : (formal, a) ∉ entries := by
            intro hmem
            rw [← hfirst] at hnew
            exact hnew (List.mem_map_of_mem hmem)
          constructor
          · intro ha
            exact .inl (Prod.ext hfirst (Option.some.inj ha).symm)
          · rintro (heq | hmem)
            · exact congrArg some (congrArg Prod.snd heq).symm
            · exact absurd hmem hnot
      | false =>
          rw [ih hrest]
          constructor
          · exact .inr
          · rintro (heq | hmem)
            · rw [← heq] at hsame
              simp at hsame
            · exact hmem

theorem Matches.lookup_inputs (h : wiring.Matches itf) {formal : String} {source : Source} :
    wiring.inputs.lookup formal = some source ↔ (formal, source) ∈ wiring.inputs :=
  lookup_iff_mem h.distinct.of_append_left

theorem Matches.lookup_outputs (h : wiring.Matches itf) {formal name : String} :
    wiring.outputs.lookup formal = some name ↔ (formal, name) ∈ wiring.outputs :=
  lookup_iff_mem h.distinct.of_append_right

end Wiring

theorem Netlist.Lawful.nodup_names {n : Netlist} (h : n.Lawful) :
    (n.signals.toList.map (·.name)).Nodup := by
  refine List.Nodup.map_on (fun s hs s' hs' hname => ?_) h.nodup_signals
  exact h.eq_of_name (h.mem_signals.mp hs) (h.mem_signals.mp hs') hname

namespace Operator

open Retime.Action Dataflow

/-- An input receives what the wiring names for it: a constant as it is written, or a signal
that is valid in `cycle`, of the width of the port, and whose root is that of the signal that
is named. -/
inductive Receives (wiring : Wiring) (cycle : Nat) (old d : Dataflow) (p : Port) :
    String × Actual → Prop where
  | constant (text : String) (bound : (p.name, .constant text) ∈ wiring.inputs) :
      Receives wiring cycle old d p (p.name, .constant text)
  | signal (name : String) (named s : Signal) (bound : (p.name, .signal name) ∈ wiring.inputs)
      (found : d.netlist.find name = .ok named) (readable : named.role ≠ .output)
      (mem : d.netlist.signal? s.id = some s) (root_eq : d.netlist.root s = d.netlist.root named)
      (root_mem : old.netlist.signal? (d.netlist.root s).id = some (d.netlist.root s))
      (cycle_eq : s.cycle = cycle) (width_eq : s.width.bits = p.width.bits) :
      Receives wiring cycle old d p (p.name, .signal s.id)

/-- An output is left open if the wiring does not name it, or else drives a signal of the given
name that was not there before. -/
inductive Delivers (wiring : Wiring) (place cycle : Nat) (old d : Dataflow) (p : Port) :
    String × Option SignalId → Prop where
  | unbound (bound : ∀ name, (p.name, name) ∉ wiring.outputs) :
      Delivers wiring place cycle old d p (p.name, none)
  | signal (s : Signal) (bound : (p.name, s.name) ∈ wiring.outputs)
      (mem : d.netlist.signal? s.id = some s) (new : old.netlist.size ≤ s.id)
      (role : s.role = .internal) (width : s.width = p.width)
      (driver : s.driver = .inst place p.name) (cycle_eq : s.cycle = cycle) :
      Delivers wiring place cycle old d p (p.name, some s.id)

/-- What an instantiation does that succeeds: it appends `inst` to the instances and `stages` and
`outs` to the signals. -/
structure Effect (lib : Library) (sub : Handle) (name : String) (wiring : Wiring)
    (op op' : Operator) (inst : Instance) (stages outs : List Signal) : Prop where
  interface : op.subInterface lib sub = .ok inst.interface
  wired : wiring.Matches inst.interface
  instances : op'.instances = op.instances.push inst
  sub_eq : inst.sub = sub
  id_eq : inst.id = op.instances.size
  name_eq : inst.name = name
  name_new : ∀ other ∈ op.instances, other.name ≠ name
  inputCycle_eq : inst.inputCycle = op.timeline.cycle
  outputCycle_eq : inst.outputCycle = op.timeline.cycle + inst.interface.depth
  outputCycle_le : inst.outputCycle ≤ maxCycle
  receives : List.Forall₂ (Receives wiring inst.inputCycle op.flow op'.flow)
    inst.interface.inputs inst.inputs
  delivers : List.Forall₂ (Delivers wiring inst.id inst.outputCycle op.flow op'.flow)
    inst.interface.outputs inst.outputs
  signals : op'.flow.netlist.signals.toList = op.flow.netlist.signals.toList ++ stages ++ outs
  names : (op'.flow.netlist.signals.toList.map (·.name)).Nodup
  /-- The stages are those that are missing behind the roots of the signals the inputs receive. -/
  mem_stages : ∀ decl, decl ∈ stages.map (·.toDeclaration) ↔
    op.flow.Missing (op'.flow.netlist.rootsOf inst.inputs) inst.inputCycle decl
  /-- The other new signals are driven by the connected outputs, in the order of the ports. -/
  outs_eq : outs.map (·.toDeclaration) =
    drivenBy wiring inst.id inst.outputCycle inst.interface.outputs
  targets_eq : inst.targets = outs.map (·.id)
  extends_flow : op.flow.Extends op'.flow
  inputs : op'.inputs = op.inputs
  outputs : op'.outputs = op.outputs
  rises : op.timeline.Rises op'.timeline

variable {lib : Library} {sub : Handle} {name : String} {wiring : Wiring} {op op' : Operator}

/-! ## Ports -/

theorem Connects.receives {cycle : Nat} {old d : Dataflow} {p : Port} {entry : String × Actual}
    (h : Connects wiring cycle old d p entry) {itf : Interface} (hwired : wiring.Matches itf)
    (hd : d.Sound) : Receives wiring cycle old d p entry := by
  cases h with
  | constant text bound => exact .constant text (hwired.lookup_inputs.mp bound)
  | signal name id bound reads width =>
      obtain ⟨named, hnamed, hname, hrole, hcarries, hmem⟩ := reads
      obtain ⟨hroot, hnone, -⟩ := hd.root_spec hnamed
      obtain ⟨s, hs, rfl, -, hcycle, hsame⟩ :=
        hcarries.signal hd hroot hnone (hd.root_role hnamed hrole)
      obtain ⟨s', hs', hwidth⟩ := width
      obtain rfl := Option.some.inj (hs.symm.trans hs')
      exact .signal name named s (hwired.lookup_inputs.mp bound)
        (hd.lawful.find_ok.mpr ⟨hnamed, hname⟩) hrole hs hsame (hsame ▸ hmem) hcycle hwidth

theorem Yields.delivers {place cycle : Nat} {old d : Dataflow} {p : Port}
    {entry : String × Option SignalId} (h : Yields wiring place cycle d p entry) {itf : Interface}
    (hwired : wiring.Matches itf) (hnew : ∀ id ∈ entry.2, old.netlist.size ≤ id) :
    Delivers wiring place cycle old d p entry := by
  cases h with
  | unbound bound =>
      refine .unbound fun name hname => ?_
      rw [hwired.lookup_outputs.mpr hname] at bound
      cases bound
  | signal s bound mem role driver cycle_eq width =>
      exact .signal s (hwired.lookup_outputs.mp bound) mem (hnew s.id rfl) role width driver cycle_eq

theorem laterCycle_le {cycle offset later : Nat} (h : laterCycle cycle offset = .ok later) :
    later = cycle + offset ∧ later ≤ maxCycle := by
  unfold laterCycle at h
  split at h
  next hle => exact ⟨(Except.ok.inj h).symm, Except.ok.inj h ▸ hle⟩
  · cases h

/-! ## The call -/

/-- The steps of an instantiation have this effect together. -/
theorem Instantiates.effect {inst : Instance} {mid last : Operator}
    (h : Instantiates lib sub name wiring op inst mid last) (htimeline : op.timeline.Nonneg) :
    ∃ stages outs, Effect lib sub name wiring op (last.withInstance inst) inst stages outs := by
  obtain ⟨hcycle, hlast⟩ := laterCycle_le h.later
  have hplacement := h.placement
  have hwired := Wiring.check_eq_ok.mp h.checked
  obtain ⟨stages, hsupplies⟩ := h.bound.supplies
  obtain ⟨outs, hsignals, hdecls, hids⟩ := h.drove.signals
  refine ⟨stages, outs, ?_⟩
  constructor
  · exact h.interface
  · exact hwired
  · exact hplacement.instances
  · exact hplacement.sub_eq
  · exact hplacement.id_eq
  · exact hplacement.name_eq
  · exact h.name_new
  · exact hplacement.inputCycle_eq
  · exact hcycle
  · exact hlast
  · exact hplacement.connects.imp fun p entry hc => hc.receives hwired hplacement.sound
  · have hnew : ∀ entry ∈ inst.outputs, ∀ id ∈ entry.2, op.flow.netlist.size ≤ id :=
      fun entry hentry id hid =>
        hplacement.targets_ge id (List.mem_filterMap.mpr ⟨entry, hentry, hid⟩)
    exact (forall₂_and_of_forall hplacement.yields hnew).imp
      fun p entry hy => hy.1.delivers hwired hy.2
  · exact hsignals.trans (congrArg (· ++ outs) hsupplies.signals)
  · exact hplacement.sound.lawful.nodup_names
  · intro decl
    -- the outputs do not change what the inputs are connected to
    have hroots := h.bound.rootsOf_eq h.driven.extends_flow
    rw [hsupplies.mem_new, ← hroots, hplacement.inputCycle_eq]
    rfl
  · rw [hplacement.id_eq]
    exact hdecls
  · exact hids.symm
  · exact hplacement.extends_flow
  · exact hplacement.inputs
  · exact hplacement.outputs
  · apply htimeline.rises_arriveAll
    exact h.bound.timeline_eq ▸ h.drove.timeline

theorem wp_instantiate_exact (h : op.flow.Sound) (htimeline : op.timeline.Nonneg) (lib : Library)
    (sub : Handle) (name : String) (wiring : Wiring) : (instantiate lib sub name wiring).wp
      (fun _ op' => ∃ inst stages outs, Effect lib sub name wiring op op' inst stages outs)
      (fun _ _ => True) op := by
  refine (wp_instantiate_steps h lib sub name wiring).mono ?_ fun _ _ _ => trivial
  rintro - _ ⟨inst, mid, last, hsteps, rfl⟩
  exact ⟨inst, hsteps.effect htimeline⟩

/-! ## A copy with two outputs -/

/-- An operator that passes a byte on, once as it is and once inverted. -/
def splitterCalls : List Call :=
  [.input "X" (.vector 8), .output "P" (.vector 8) "X", .output "Q" (.vector 8) "~X", .finish]

def splitter : Operator :=
  (blank 0 "splitter" 4 true).after (splitterCalls.map (.ofSettings {}, ·))

def splitterInterface (sequential : Bool) : Interface where
  name := "splitter"
  inputs := [⟨"X", .vector 8, 0⟩]
  outputs := [⟨"P", .vector 8, 0⟩, ⟨"Q", .vector 8, 0⟩]
  depth := 0
  sequential

/-- A library with the splitter in it. -/
def splitterLibrary : Library :=
  { Library.ofSettings {} with
    slots := #[{ name := "splitter", operator := some splitter }]
    index := (∅ : Std.HashMap String Handle).insert "splitter" 0 }

/-- The splitter before it is finished. -/
def splitterBody : Operator :=
  { blank 0 "splitter" 4 true with
    flow.netlist := ((({} : Netlist).add ⟨"X", .input, .combinational, .vector 8, 0, .port⟩).add
      ⟨"P", .output, .combinational, .vector 8, 0, .expr "X"⟩).add
      ⟨"Q", .output, .combinational, .vector 8, 0, .expr "~X"⟩
    inputs := #[0]
    outputs := #[⟨1, 0⟩, ⟨2, 0⟩] }

theorem leads_splitterCalls (lib : Library) : ∃ schedule,
    LaidOut splitterBody 0 [⟨0, none⟩, ⟨0, none⟩] schedule ∧
      (blank 0 "splitter" 4 true).Leads (splitterCalls.map (lib, ·))
        { splitterBody with schedule := some schedule } := by
  obtain ⟨schedule, hlaid, hfinish⟩ : ∃ schedule, _ ∧ splitterBody.Leads [(lib, .finish)] _ :=
    leads_finish rfl (by decide) fun _ => (Timeline.budgeted_start (by decide)).toBounded
  refine ⟨schedule, hlaid, ?_⟩
  refine Leads.cons (leads_input rfl rfl (by simp [blank, Netlist.contains])) ?_
  refine Leads.cons (leads_output rfl rfl (by simp [blank, Netlist.contains, Netlist.add]) rfl) ?_
  exact Leads.cons (leads_output rfl rfl (by simp [blank, Netlist.contains, Netlist.add]) rfl) hfinish

theorem interface?_splitter : ∃ sequential,
    splitter.interface? = some (splitterInterface sequential) := by
  obtain ⟨schedule, hlaid, -, hsplitter⟩ := leads_splitterCalls (.ofSettings {})
  refine ⟨schedule.sequential, ?_⟩
  rw [splitter, hsplitter]
  simp only [interface?, Option.map_some, hlaid.depth_eq, hlaid.outputDelays_eq]
  rfl

theorem interface_splitter : ∃ sequential,
    splitterLibrary.interface 0 = .ok (splitterInterface sequential) := by
  obtain ⟨sequential, hitf⟩ := interface?_splitter
  exact ⟨sequential, Library.interface_eq_ok.mpr ⟨splitter, rfl, hitf⟩⟩

/-- A byte that is there one cycle before the current one. -/
def lateByteCalls : List Call :=
  [.input "a" (.vector 8), .advance]

/-- The operator with the byte. -/
def lateByte : Operator :=
  let a : Declaration :=
    { name := "a", role := .input, width := .vector 8, cycle := 0, driver := .port }
  { blank 1 "top" 4 true with
    timeline := ({ period := 4, pipelined := true } : Timeline).enter 1
    flow := { netlist := ({} : Netlist).add a }
    inputs := #[0] }

theorem leads_lateByteCalls (lib : Library) :
    (blank 1 "top" 4 true).Leads (lateByteCalls.map (lib, ·)) lateByte := by
  refine Leads.cons (leads_input rfl rfl (by simp [blank, Netlist.contains])) (leads_advance rfl ?_)
  simp [blank, Timeline.advance, laterCycle, maxCycle, Except.map]

/-- A delay of zero fits every cycle. -/
theorem arrive_zero_lateByte : ∃ t, lateByte.timeline.arrive 1 0 = .ok t := by
  have hperiod : lateByte.timeline.period = 4 := Timeline.period_enter 1
  apply Timeline.arrive_of_inPeriod
  · rw [hperiod]
    decide
  · rw [Timeline.InPeriod, hperiod]
    decide

/-- A copy of the splitter that waits for the byte. -/
def splitterCopy : Call :=
  .instantiate 0 "u" ((Wiring.input {} "X" "a").output "Q" "q")

theorem admits_splitterCopy {sequential : Bool}
    (hitf : splitterLibrary.interface 0 = .ok (splitterInterface sequential)) {wiring : Wiring}
    (hcheck : wiring.check (splitterInterface sequential) = .ok ()) :
    lateByte.Admits splitterLibrary 0 "u" wiring (splitterInterface sequential) 1 where
  free := by simp [lateByte, blank]
  interface := hitf
  checked := hcheck
  later := rfl

/-- The byte waits for the copy in a stage. -/
def stagedByte : Operator :=
  let a : Signal := ⟨⟨"a", .input, .combinational, .vector 8, 0, .port⟩, 0⟩
  { lateByte with
    flow := (lateByte.flow.grow a).remember 0 1 1
    consumed := lateByte.consumed.insert 0 }

theorem contains_stagedByte (name : String) : stagedByte.flow.netlist.contains name =
    (stageName "a" 1 == name || "a" == name) := by
  let a : Signal := ⟨⟨"a", .input, .combinational, .vector 8, 0, .port⟩, 0⟩
  have hnetlist : stagedByte.flow.netlist =
      (({} : Netlist).add a.toDeclaration).add (stageOf a "a" 1) := rfl
  rw [hnetlist, Netlist.contains_add, Netlist.contains_add]
  simp [Netlist.contains, stageOf, a]

theorem returns_stagedByte (sequential : Bool) {wiring : Wiring}
    (hbound : wiring.inputs.lookup "X" = some (.signal "a")) :
    (forEach (connectInput (splitterInterface sequential) wiring 1)
      (splitterInterface sequential).inputs).Returns lateByte [("X", .signal 1)] stagedByte := by
  let a : Declaration := ⟨"a", .input, .combinational, .vector 8, 0, .port⟩
  have hfind : lateByte.flow.netlist.find "a" = .ok ⟨a, 0⟩ := Netlist.find_add_self a
  have hname : "a" ≠ stageName "a" 1 := by decide
  have hfree : lateByte.flow.netlist.contains (stageName "a" 1) = false := by
    simp [lateByte, Netlist.contains, Netlist.add, hname]
  have hstaged := returns_resolve_next (d := lateByte.flow) (s := ⟨a, 0⟩) rfl rfl hfree
  exact (returns_connectInput lateByte (splitterInterface sequential) wiring ⟨"X", .vector 8, 0⟩
    hbound hfind (by decide) rfl hstaged).forEach_cons (returns_forEach_nil _)

/-- The operator with the copy in it. -/
def splitByte (sequential : Bool) (t : Timeline) : Operator :=
  { stagedByte with
    flow.netlist := stagedByte.flow.netlist.add (driven 0 1 ⟨"Q", .vector 8, 0⟩ "q")
    timeline := t
    instances := #[⟨0, "u", 0, splitterInterface sequential, 1, 1, [("X", .signal 1)],
      [("P", none), ("Q", some 2)]⟩] }

/-- The copy drives a signal that arrives in the current cycle. -/
theorem leads_splitterCopy : ∃ sequential t, lateByte.timeline.arrive 1 0 = .ok t ∧
    lateByte.Leads [(splitterLibrary, splitterCopy)] (splitByte sequential t) := by
  obtain ⟨sequential, hitf⟩ := interface_splitter
  obtain ⟨t, ht⟩ := arrive_zero_lateByte
  let wiring : Wiring := (Wiring.input {} "X" "a").output "Q" "q"
  have hopen := returns_connectOutput_open stagedByte wiring 0 1 ⟨"P", .vector 8, 0⟩ rfl
  have hdrive := returns_connectOutput stagedByte wiring 0 1 ⟨"Q", .vector 8, 0⟩ rfl
    (by rw [contains_stagedByte]; decide) ht
  exact ⟨sequential, t, ht, leads_instantiate rfl (admits_splitterCopy hitf rfl)
    (returns_stagedByte sequential rfl)
    (hopen.forEach_cons (hdrive.forEach_cons (returns_forEach_nil _)))⟩

/-! ## Every operator -/

/-- Whatever was called on an operator before, an instantiation that succeeds has its effect. -/
theorem instantiation_has_effect (handle : Handle) (opName : String) (period : Float)
    (pipelined : Bool) (script : Script) {lib : Library} {sub : Handle} {name : String}
    {wiring : Wiring} (h : ((blank handle opName period pipelined).after script).Succeeds
      (lib, .instantiate sub name wiring)) :
    let op := (blank handle opName period pipelined).after script
    ∃ inst stages outs, Effect lib sub name wiring op (op.step (lib, .instantiate sub name wiring))
      inst stages outs := by
  intro op
  obtain ⟨-, hstep, answer, hanswer⟩ := execute_of_succeeds h
  have hsound : op.flow.Sound :=
    (evolves_after (sound_blank handle opName period pipelined) script).sound sound_empty
  have htimeline := nonneg_after handle opName period pipelined script
  have hwp : (execute lib (.instantiate sub name wiring)).wp (fun _ op' => ∃ inst stages outs,
      Effect lib sub name wiring op op' inst stages outs) (fun _ _ => True) op :=
    wp_bind.mpr ((wp_instantiate_exact hsound htimeline lib sub name wiring).mono
      (fun _ _ hop' => hop') fun _ _ _ => trivial)
  rw [hstep]
  exact hwp.of_ok hanswer

/-- The copy waits for a byte in a stage and drives one signal. -/
theorem effect_of_splitterCopy :
    let op := (blank 1 "top" 4 true).after (lateByteCalls.map (splitterLibrary, ·))
    op.Succeeds (splitterLibrary, splitterCopy) ∧ ∃ inst stages outs, Effect splitterLibrary 0 "u"
      ((Wiring.input {} "X" "a").output "Q" "q") op (op.step (splitterLibrary, splitterCopy))
      inst stages outs := by
  intro op
  have hsucceeds : op.Succeeds (splitterLibrary, splitterCopy) := by
    obtain ⟨sequential, t, -, hcopy⟩ := leads_splitterCopy
    rw [show op = lateByte from (leads_lateByteCalls splitterLibrary).2]
    exact hcopy.succeeds
  exact ⟨hsucceeds, instantiation_has_effect 1 "top" 4 true _ hsucceeds⟩

end Operator

end Retime
