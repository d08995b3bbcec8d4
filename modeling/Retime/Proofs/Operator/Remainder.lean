import Retime.Proofs.Operator.Effect
import Retime.Proofs.Operator.Listed

/-! # What a failed instantiation leaves

An instantiation connects its ports before it enters the instance, and a failure ends the
description: nothing is taken back. So a failure while ports are connected leaves stages behind
the signals that were named for the inputs, and the signals of the outputs before it. Entries
are never made, and all that was there before stays.
-/

namespace Retime

/-- The faults that can be met while ports are connected. An open input is noticed before,
unless a connected output has its name. -/
inductive Fault.OfConnecting (wiring : Wiring) : Fault → Prop where
  | unknownSignal (name : String) : OfConnecting wiring (.unknownSignal name)
  | outputNotReadable (name : String) : OfConnecting wiring (.outputNotReadable name)
  | backwardReference (name : String) (declared requested : Nat) :
      OfConnecting wiring (.backwardReference name declared requested)
  | widthMismatch (formal actual : String) (expected found : Nat) :
      OfConnecting wiring (.widthMismatch formal actual expected found)
  | duplicateSignal (name : String) : OfConnecting wiring (.duplicateSignal name)
  | unreachableTiming (delay period : Float) : OfConnecting wiring (.unreachableTiming delay period)
  | unboundPort (operator formal : String) (named : formal ∈ wiring.outputs.map (·.1)) :
      OfConnecting wiring (.unboundPort operator formal)

namespace Operator

open Retime.Action Dataflow

/-- `root` is the root of a signal that is named for an input. -/
inductive NamedRoot (wiring : Wiring) (n : Netlist) : Signal → Prop where
  | intro (formal name : String) (s : Signal) (bound : (formal, .signal name) ∈ wiring.inputs)
      (found : n.find name = .ok s) : NamedRoot wiring n (n.root s)

/-- What a failed instantiation leaves: `stages` and `outs` are the signals that are new. -/
structure Remainder (lib : Library) (sub : Handle) (wiring : Wiring) (op op' : Operator)
    (e : Fault) (stages outs : List Signal) : Prop where
  /-- A failure before the first port is connected leaves nothing. -/
  early : ¬ e.OfConnecting wiring → op' = op
  same : SameEntries op op'
  signals : op'.flow.netlist.signals.toList = op.flow.netlist.signals.toList ++ stages ++ outs
  stages_missing : ∀ s ∈ stages, ∃ root, NamedRoot wiring op'.flow.netlist root ∧
    op.flow.Missing [root] op.timeline.cycle s.toDeclaration
  /-- The outputs were connected in the order of the ports, up to some port. -/
  outs_driven : outs ≠ [] → ∃ itf connected, op.subInterface lib sub = .ok itf ∧
    connected <+: itf.outputs ∧ outs.map (·.toDeclaration) =
      drivenBy wiring op.instances.size (op.timeline.cycle + itf.depth) connected
  lines : ∀ r, (∀ root, NamedRoot wiring op'.flow.netlist root → root.id ≠ r) →
    op'.flow.line r = op.flow.line r
  extends_flow : op.flow.Extends op'.flow
  consumed : ∀ id ∈ op'.consumed, id ∈ op.consumed ∨ ∃ formal name s,
    (formal, .signal name) ∈ wiring.inputs ∧ op'.flow.netlist.find name = .ok s ∧ s.id = id
  consumed_kept : ∀ id ∈ op.consumed, id ∈ op'.consumed
  rises : op.timeline.Rises op'.timeline
  still : outs = [] → op'.timeline = op.timeline

/-- How an instantiation stops. -/
inductive Stops (lib : Library) (sub : Handle) (wiring : Wiring) (op : Operator) :
    Fault → Operator → Prop where
  | early (e : Fault) : Stops lib sub wiring op e op
  | input {itf : Interface} {done rest : List Port} {p : Port} {entries : List (String × Actual)}
      {op₁ op' : Operator} {e : Fault} (wired : wiring.Matches itf)
      (ports : itf.inputs = done ++ p :: rest)
      (bound : Bound wiring op.timeline.cycle op op₁ done entries)
      (fails : InputFails wiring op.timeline.cycle op₁ p e op') : Stops lib sub wiring op e op'
  | output {itf : Interface} {inputs : List (String × Actual)} {done rest : List Port} {p : Port}
      {entries : List (String × Option SignalId)} {op₁ op₂ op' : Operator} {e : Fault}
      (interface : op.subInterface lib sub = .ok itf) (wired : wiring.Matches itf)
      (bound : Bound wiring op.timeline.cycle op op₁ itf.inputs inputs)
      (ports : itf.outputs = done ++ p :: rest)
      (drove : Drove wiring op.instances.size (op.timeline.cycle + itf.depth) op₁ op₂ done entries)
      (fails : OutputFails wiring op.instances.size (op.timeline.cycle + itf.depth) op₂ p e op') :
      Stops lib sub wiring op e op'

variable {lib : Library} {sub : Handle} {name : String} {wiring : Wiring} {cycle place : Nat}
  {op op₁ op₂ op' : Operator} {e : Fault} {ports : List Port}

/-! ## The way to a failure -/

theorem wp_instantiate_stops (h : op.flow.Sound) (lib : Library) (sub : Handle) (name : String)
    (wiring : Wiring) : (instantiate lib sub name wiring).wp (fun _ _ => True)
      (Stops lib sub wiring op) op := by
  refine wp_instantiate_of (fun itf cycle hadmits => ?_) fun e _ => .early e
  have hwired := Wiring.check_eq_ok.mp hadmits.checked
  obtain ⟨rfl, -⟩ := laterCycle_le hadmits.later
  apply (wp_connectInputs_exact h itf itf.inputs).mono
  · intro inputs op₁ hbound
    apply (wp_connectOutputs_exact op₁ wiring _ _ itf.outputs).mono
    · exact fun _ _ _ => trivial
    · rintro e op' ⟨done, p, rest, entries, op₂, hports, hdrove, hfails⟩
      exact .output hadmits.interface hwired hbound hports hdrove hfails
  · rintro e op' ⟨done, p, rest, entries, op₁, hports, hbound, hfails⟩
    exact .input hwired hports hbound hfails

/-! ## Faults -/

theorem InputFails.ofConnecting {p : Port} {itf : Interface} (h : InputFails wiring cycle op p e op')
    (hwired : wiring.Matches itf) (hp : p ∈ itf.inputs) : e.OfConnecting wiring := by
  cases h with
  | unbound operator bound =>
      refine .unboundPort operator p.name ?_
      rcases List.mem_append.mp (hwired.complete p hp) with hin | hout
      · obtain ⟨⟨formal, source⟩, hentry, hname⟩ := List.mem_map.mp hin
        obtain rfl : formal = p.name := hname
        rw [hwired.lookup_inputs.mpr hentry] at bound
        cases bound
      · exact hout
  | unknown name e bound missing =>
      unfold Netlist.find at missing
      split at missing
      · cases missing
      · cases missing
        exact .unknownSignal name
  | refused name s e bound found fault =>
      rcases fault with ⟨expected, found, rfl⟩ | rfl | ⟨requested, rfl⟩
      · exact .widthMismatch _ _ _ _
      · exact .outputNotReadable name
      · exact .backwardReference _ _ _
  | hindered name s e count bound found short hindered =>
      rw [hindered.fault_eq]
      exact .duplicateSignal _

theorem OutputFails.ofConnecting {p : Port} (h : OutputFails wiring place cycle op p e op') :
    e.OfConnecting wiring := by
  cases h with
  | taken name bound taken => exact .duplicateSignal name
  | late name e bound free late =>
      unfold Timeline.arrive at late
      split at late
      · cases late
      · cases late
        exact .unreachableTiming _ _

/-! ## Stages -/

theorem NamedRoot.mono {d d' : Dataflow} {root : Signal} (h : NamedRoot wiring d.netlist root)
    (hd : d.Sound) (hd' : d'.Sound) (hext : d.Extends d') : NamedRoot wiring d'.netlist root := by
  obtain ⟨formal, name, s, bound, found⟩ := h
  obtain ⟨hs, -⟩ := hd.lawful.find_ok.mp found
  rw [← hext.root_eq hd hs]
  exact ⟨formal, name, s, bound, hext.find hd hd' found⟩

section Bound

variable {entries : List (String × Actual)} (h : Bound wiring cycle op op₁ ports entries)
  {itf : Interface} (hwired : wiring.Matches itf)
include h hwired

/-- What an input is connected to has the root of what is named for it. -/
theorem Bound.namedRoot {root : Signal} (hroot : root ∈ op₁.flow.netlist.rootsOf entries) :
    NamedRoot wiring op₁.flow.netlist root := by
  have hsound := h.lengthened.sound
  obtain ⟨⟨formal, actual⟩, hmem, hsome⟩ := List.mem_filterMap.mp hroot
  cases actual with
  | constant text => cases hsome
  | signal id =>
      obtain ⟨p, -, hconnects⟩ := exists_left_of_forall₂ h.connects hmem
      cases hconnects with
      | signal name id bound reads width =>
          obtain ⟨s, hs, hname, hrole, hcarries, -⟩ := reads
          obtain ⟨hin, hnone, -⟩ := hsound.root_spec hs
          obtain ⟨t, ht, rfl, -, -, hsame⟩ :=
            hcarries.signal hsound hin hnone (hsound.root_role hs hrole)
          obtain rfl : op₁.flow.netlist.root t = root := by simpa [ht] using hsome
          rw [hsame]
          exact ⟨p.name, name, s, hwired.lookup_inputs.mp bound,
            hsound.lawful.find_ok.mpr ⟨hs, hname⟩⟩

/-- The stages that the inputs so far wait for. -/
theorem Bound.exists_stages : ∃ stages, op₁.flow.netlist.signals.toList =
      op.flow.netlist.signals.toList ++ stages ∧
    (∀ s ∈ stages, ∃ root, NamedRoot wiring op₁.flow.netlist root ∧
      op.flow.Missing [root] cycle s.toDeclaration) ∧
    ∀ r, (∀ root, NamedRoot wiring op₁.flow.netlist root → root.id ≠ r) →
      op₁.flow.line r = op.flow.line r := by
  obtain ⟨stages, hsupplies⟩ := h.supplies
  refine ⟨stages, hsupplies.signals, fun s hs => ?_, fun r hr => hsupplies.others r ?_⟩
  · have hmissing := (hsupplies.mem_new s.toDeclaration).mp (List.mem_map_of_mem hs)
    obtain ⟨root, hroot, hone⟩ := hmissing.exists_root
    exact ⟨root, h.namedRoot hwired hroot, hone⟩
  · intro hmem
    obtain ⟨root, hroot, hid⟩ := List.mem_map.mp hmem
    exact hr root (h.namedRoot hwired hroot) hid

end Bound

theorem lengthens_growBy (d : Dataflow) (root : Signal) (count : Nat) :
    Lengthens root.id d (d.growBy root count) := by
  induction count with
  | zero => exact .refl root.id d
  | succ count ih => exact ih.trans (lengthens_grow root)

/-- An input that cannot be connected leaves stages behind the signal that is named for it. -/
structure Stuck (wiring : Wiring) (cycle : Nat) (op op₁ op' : Operator) (more : List Signal) :
    Prop where
  signals : op'.flow.netlist.signals.toList = op₁.flow.netlist.signals.toList ++ more
  missing : ∀ s ∈ more, ∃ root, NamedRoot wiring op'.flow.netlist root ∧
    op.flow.Missing [root] cycle s.toDeclaration
  lines : ∀ r, (∀ root, NamedRoot wiring op'.flow.netlist root → root.id ≠ r) →
    op'.flow.line r = op₁.flow.line r
  extends_flow : op₁.flow.Extends op'.flow
  same : SameEntries op₁ op'
  timeline : op'.timeline = op₁.timeline
  consumed : op'.consumed = op₁.consumed

theorem stuck_self (wiring : Wiring) (cycle : Nat) (op op₁ : Operator) :
    Stuck wiring cycle op op₁ op₁ [] where
  signals := by simp
  missing _ hs := by cases hs
  lines _ _ := rfl
  extends_flow := .refl _
  same := sameEntries_refl op₁
  timeline := rfl
  consumed := rfl

theorem InputFails.stuck {p : Port} {entries : List (String × Actual)} {itf : Interface}
    (h : InputFails wiring cycle op₁ p e op') (hwired : wiring.Matches itf)
    (hbound : Bound wiring cycle op op₁ ports entries) (hsound : op'.flow.Sound) :
    ∃ more, Stuck wiring cycle op op₁ op' more := by
  cases h with
  | unbound operator bound => exact ⟨[], stuck_self wiring cycle op op₁⟩
  | unknown name e bound missing => exact ⟨[], stuck_self wiring cycle op op₁⟩
  | refused name s e bound found fault => exact ⟨[], stuck_self wiring cycle op op₁⟩
  | hindered name s e count bound found short hindered =>
      have hlonger := lengthens_growBy op₁.flow (op₁.flow.netlist.root s) count
      have hgains := gains_growBy op₁.flow (op₁.flow.netlist.root s) count
      have hnamed : NamedRoot wiring (op₁.flow.growBy (op₁.flow.netlist.root s) count).netlist
          (op₁.flow.netlist.root s) :=
        NamedRoot.mono ⟨p.name, name, s, hwired.lookup_inputs.mp bound, found⟩
          hbound.lengthened.sound hsound hlonger.toExtends
      obtain ⟨hs, -⟩ := hbound.lengthened.sound.lawful.find_ok.mp found
      obtain ⟨stages, hsupplies⟩ := hbound.supplies
      have hsize : (op.flow.stages (op₁.flow.netlist.root s).id).size ≤
          (op₁.flow.stages (op₁.flow.netlist.root s).id).size := by
        rcases hsupplies.size_of (hbound.root_mem hs) with ⟨hsame, -⟩ | ⟨hmax, -⟩ <;> omega
      refine ⟨_, hgains.signals, fun t ht => ⟨_, hnamed, missing_singleton.mpr ?_⟩,
        fun r hr => hgains.others r (hr _ hnamed).symm, hlonger.toExtends,
        ⟨rfl, rfl, rfl, rfl, rfl, rfl⟩, rfl, rfl⟩
      obtain ⟨depth, hlow, hhigh, hdecl⟩ := mem_nextStages.mp (List.mem_map_of_mem ht)
      rw [stem_congr (hsupplies.stem_eq _)] at hdecl
      exact ⟨depth, by omega, by omega, hdecl⟩

/-! ## Outputs -/

theorem extends_of_signals {d d' : Dataflow} {new : List Signal}
    (hsignals : d'.netlist.signals.toList = d.netlist.signals.toList ++ new)
    (hlines : d'.lines = d.lines) : d.Extends d' where
  netlist id s hs := by
    unfold Netlist.signal? at hs ⊢
    rw [← Array.getElem?_toList] at hs ⊢
    rw [hsignals, List.getElem?_append_left (List.getElem?_eq_some_iff.mp hs).1]
    exact hs
  stages hk := by
    unfold Dataflow.stages Dataflow.line at hk ⊢
    rwa [hlines]

/-- The signals that connected outputs drive, up to one that cannot be connected. -/
structure Halted (wiring : Wiring) (place cycle : Nat) (op₁ op' : Operator)
    (connected : List Port) (outs : List Signal) : Prop where
  signals : op'.flow.netlist.signals.toList = op₁.flow.netlist.signals.toList ++ outs
  outs_eq : outs.map (·.toDeclaration) = drivenBy wiring place cycle connected
  lines : op'.flow.lines = op₁.flow.lines
  same : SameEntries op₁ op'
  consumed : op'.consumed = op₁.consumed
  rises : op₁.timeline.Rises op'.timeline
  still : outs = [] → op'.timeline = op₁.timeline

/-- Without a signal that is driven nothing arrives. -/
theorem arrivals_of_drivenBy_nil (h : drivenBy wiring place cycle ports = []) :
    wiring.arrivals ports = [] := by
  have hopen : ∀ p ∈ ports, wiring.outputs.lookup p.name = none := by
    intro p hp
    simpa using List.filterMap_eq_nil_iff.mp h p hp
  unfold Wiring.arrivals
  rw [List.map_eq_nil_iff, List.filter_eq_nil_iff]
  intro p hp
  simp [hopen p hp]

theorem OutputFails.halted {p : Port} {done rest : List Port}
    {entries : List (String × Option SignalId)} (h : OutputFails wiring place cycle op₂ p e op')
    (hdrove : Drove wiring place cycle op₁ op₂ done entries) (htimeline : op₁.timeline.Nonneg) :
    ∃ connected outs, connected <+: done ++ p :: rest ∧
      Halted wiring place cycle op₁ op' connected outs := by
  obtain ⟨outs, hsignals, hdecls, -⟩ := hdrove.signals
  have hrises := htimeline.rises_arriveAll hdrove.timeline
  cases h with
  | taken name bound taken =>
      refine ⟨done, outs, List.prefix_append _ _, hsignals, hdecls, hdrove.lines, hdrove.same,
        hdrove.consumed, hrises, ?_⟩
      rintro rfl
      have harrive := hdrove.timeline
      rw [arrivals_of_drivenBy_nil hdecls.symm] at harrive
      exact (Except.ok.inj harrive).symm
  | late name e bound free late =>
      refine ⟨done ++ [p], outs ++ [⟨driven place cycle p name, op₂.flow.netlist.size⟩], ?_, ?_, ?_,
        hdrove.lines, hdrove.same.trans ⟨rfl, rfl, rfl, rfl, rfl, rfl⟩, hdrove.consumed, hrises,
        fun hnil => by simp at hnil⟩
      · exact ⟨rest, by simp⟩
      · rw [← List.append_assoc, ← hsignals]
        exact Array.toList_push
      · rw [drivenBy_append, List.map_append, hdecls]
        simp [drivenBy, bound]

/-! ## What is left -/

theorem Bound.consumed_named {entries : List (String × Actual)} {itf : Interface}
    (h : Bound wiring cycle op op₁ ports entries) (hwired : wiring.Matches itf) {d : Dataflow}
    (hd : d.Sound) (hext : op₁.flow.Extends d) {id : SignalId} (hid : id ∈ op₁.consumed) :
    id ∈ op.consumed ∨ ∃ formal name s, (formal, .signal name) ∈ wiring.inputs ∧
      d.netlist.find name = .ok s ∧ s.id = id := by
  apply (h.consumed id hid).imp_right
  rintro ⟨p, -, name, s, hbound, hfind, hs⟩
  exact ⟨p.name, name, s, hwired.lookup_inputs.mp hbound, h.find_eq hd hext hfind, hs⟩

theorem remainder_self (lib : Library) (sub : Handle) (wiring : Wiring)
    (htimeline : op.timeline.Nonneg) (e : Fault) : Remainder lib sub wiring op op e [] [] where
  early _ := rfl
  same := sameEntries_refl op
  signals := by simp
  stages_missing _ hs := by cases hs
  outs_driven hnil := absurd rfl hnil
  lines _ _ := rfl
  extends_flow := .refl _
  consumed _ hid := .inl hid
  consumed_kept _ hid := hid
  rises := htimeline.rises_refl
  still _ := rfl

/-- Whatever an instantiation stops at, no more is left than what was connected before. -/
theorem Stops.remainder (h : Stops lib sub wiring op e op') (htimeline : op.timeline.Nonneg)
    (hsound : op'.flow.Sound) : ∃ stages outs, Remainder lib sub wiring op op' e stages outs := by
  cases h with
  | early e => exact ⟨[], [], remainder_self lib sub wiring htimeline e⟩
  | input wired hports bound fails =>
      obtain ⟨more, hstuck⟩ := fails.stuck wired bound hsound
      obtain ⟨stages, hsignals, hmissing, hlines⟩ := bound.exists_stages wired
      have hnamed : ∀ root, NamedRoot wiring _ root → NamedRoot wiring op'.flow.netlist root :=
        fun root hroot => hroot.mono bound.lengthened.sound hsound hstuck.extends_flow
      have hsame : op'.timeline = op.timeline := hstuck.timeline.trans bound.timeline_eq
      refine ⟨stages ++ more, [], ?_⟩
      constructor
      · exact fun hearly => absurd (fails.ofConnecting wired (by simp [hports])) hearly
      · exact bound.same.trans hstuck.same
      · rw [hstuck.signals, hsignals, List.append_nil, List.append_assoc]
      · intro s hs
        rcases List.mem_append.mp hs with hs | hs
        · obtain ⟨root, hroot, hdecl⟩ := hmissing s hs
          exact ⟨root, hnamed root hroot, hdecl⟩
        · exact hstuck.missing s hs
      · exact fun hnil => absurd rfl hnil
      · intro r hr
        rw [hstuck.lines r hr, hlines r fun root hroot => hr root (hnamed root hroot)]
      · exact bound.lengthened.extends_flow.trans hstuck.extends_flow
      · intro id hid
        rw [hstuck.consumed] at hid
        exact bound.consumed_named wired hsound hstuck.extends_flow hid
      · intro id hid
        rw [hstuck.consumed]
        exact bound.consumed_kept id hid
      · exact hsame ▸ htimeline.rises_refl
      · exact fun _ => hsame
  | @output itf inputs done rest p entries op₁ op₂ op' e interface wired bound hports drove fails =>
      obtain ⟨stages, hsignals, hmissing, hlines⟩ := bound.exists_stages wired
      have hnonneg : op₁.timeline.Nonneg := bound.timeline_eq ▸ htimeline
      obtain ⟨connected, outs, hprefix, hhalted⟩ := @OutputFails.halted _ _ _ _ _ _ _ _ _ rest _
        fails drove hnonneg
      have hext := extends_of_signals hhalted.signals hhalted.lines
      have hnamed : ∀ root, NamedRoot wiring op₁.flow.netlist root →
          NamedRoot wiring op'.flow.netlist root :=
        fun root hroot => hroot.mono bound.lengthened.sound hsound hext
      refine ⟨stages, outs, ?_⟩
      constructor
      · exact fun hearly => absurd fails.ofConnecting hearly
      · exact bound.same.trans hhalted.same
      · rw [hhalted.signals, hsignals]
      · intro s hs
        obtain ⟨root, hroot, hdecl⟩ := hmissing s hs
        exact ⟨root, hnamed root hroot, hdecl⟩
      · exact fun _ => ⟨itf, connected, interface, hports ▸ hprefix, hhalted.outs_eq⟩
      · intro r hr
        rw [← hlines r fun root hroot => hr root (hnamed root hroot)]
        unfold Dataflow.line
        rw [hhalted.lines]
      · exact bound.lengthened.extends_flow.trans hext
      · intro id hid
        rw [hhalted.consumed] at hid
        exact bound.consumed_named wired hsound hext hid
      · intro id hid
        rw [hhalted.consumed]
        exact bound.consumed_kept id hid
      · exact bound.timeline_eq ▸ hhalted.rises
      · exact fun hnil => (hhalted.still hnil).trans bound.timeline_eq

/-- What is left of a call that fails. -/
theorem remainder_of_failed (hop : op.Sound) (htimeline : op.timeline.Nonneg) {failure : Failure}
    (h : (perform lib (.instantiate sub name wiring) op).result = .error failure) :
    ∃ stages outs, Remainder lib sub wiring op (op.step (lib, .instantiate sub name wiring))
      failure.fault stages outs := by
  cases hopen : op.isFinished with
  | true =>
      have hsame : op.step (lib, .instantiate sub name wiring) = op := (perform_of_closed hopen).2
      rw [hsame]
      exact ⟨[], [], remainder_self lib sub wiring htimeline _⟩
  | false =>
      have hwp : (execute lib (.instantiate sub name wiring)).wp (fun _ _ => True)
          (Stops lib sub wiring op) op :=
        wp_bind.mpr ((wp_instantiate_stops hop.flow lib sub name wiring).mono
          (fun _ _ _ => trivial) fun _ _ he => he)
      have hstops := hwp.of_error (execute_of_failed hopen h)
      have hstep : op.step (lib, .instantiate sub name wiring) =
          (execute lib (.instantiate sub name wiring) op).state := (perform_of_open hopen).2
      rw [← hstep] at hstops
      exact hstops.remainder htimeline (evolves_step hop (lib, .instantiate sub name wiring)).1.flow

/-! ## A failure at the last output -/

/-- Nothing that a call can change differs. -/
structure Untouched (op op' : Operator) : Prop where
  signals : op'.flow.netlist.signals = op.flow.netlist.signals
  lines : ∀ r, op'.flow.line r = op.flow.line r
  timeline : op'.timeline = op.timeline
  consumed : ∀ id, id ∈ op'.consumed ↔ id ∈ op.consumed
  instances : op'.instances = op.instances

/-- The second output is to drive a signal whose name is taken. -/
def brokenCopy : Call :=
  .instantiate 0 "u" (((Wiring.input {} "X" "a").output "P" "p").output "Q" "a")

/-- A call that is known to stop fails. -/
theorem fails_of_wp {c : Call} {E : Fault → Operator → Prop} (hopen : op.isFinished = false)
    (h : (execute lib c).wp (fun _ _ => False) E op) :
    ∃ failure, (perform lib c op).result = .error failure ∧ E failure.fault (op.step (lib, c)) := by
  obtain ⟨hresult, hstate⟩ := @perform_of_open op lib c hopen
  have hboth := h.and Action.wp_of_result
  unfold Action.wp at hboth
  split at hboth
  next => exact hboth.1.elim
  next e herror =>
    refine ⟨⟨op.name, c.text, e⟩, ?_, ?_⟩
    · rw [hresult, herror]
      rfl
    · rw [step, hstate]
      exact hboth.1

theorem brokenCopy_fails : ∃ failure,
    (perform splitterLibrary brokenCopy lateByte).result = .error failure ∧
      failure.fault = .duplicateSignal "a" ∧
      (lateByte.step (splitterLibrary, brokenCopy)).instances = #[] ∧
      ∃ s, (lateByte.step (splitterLibrary, brokenCopy)).flow.netlist.signal? s.id = some s ∧
        s.id = 2 ∧ s.driver = .inst 0 "P" := by
  obtain ⟨sequential, hitf⟩ := interface_splitter
  obtain ⟨t, ht⟩ := arrive_zero_lateByte
  let wiring : Wiring := ((Wiring.input {} "X" "a").output "P" "p").output "Q" "a"
  let left : Operator := { stagedByte with
    flow.netlist := stagedByte.flow.netlist.add (driven 0 1 ⟨"P", .vector 8, 0⟩ "p")
    timeline := t }
  have hp : (connectOutput wiring 0 1 ⟨"P", .vector 8, 0⟩).Returns stagedByte ("P", some 2) left :=
    returns_connectOutput stagedByte wiring 0 1 ⟨"P", .vector 8, 0⟩ rfl
      (by rw [contains_stagedByte]; decide) ht
  have htaken : left.flow.netlist.contains "a" = true := by
    rw [Netlist.contains_add, contains_stagedByte]
    decide
  have hq : (connectOutput wiring 0 1 ⟨"Q", .vector 8, 0⟩).wp (fun _ _ => False)
      (fun e op' => e = .duplicateSignal "a" ∧ op' = left) left := by
    show (onFlow _ >>= _).wp _ _ _
    rw [wp_bind, wp_onFlow, wp_declare]
    exact ⟨fun _ => ⟨rfl, rfl⟩, fun hfree => absurd (hfree.symm.trans htaken) Bool.false_ne_true⟩
  have hstops : (execute splitterLibrary brokenCopy).wp (fun _ _ => False)
      (fun e op' => e = .duplicateSignal "a" ∧ op' = left) lateByte := by
    refine wp_bind.mpr ((admits_splitterCopy hitf rfl).wp_instantiate ?_)
    refine (returns_stagedByte sequential rfl).wp ?_
    refine wp_bind.mpr (hp.wp (wp_bind.mpr (wp_bind.mpr ?_)))
    exact hq.mono (fun _ _ => False.elim) fun _ _ h => h
  obtain ⟨failure, hfails, hfault, hleft⟩ := fails_of_wp rfl hstops
  rw [hleft]
  exact ⟨failure, hfails, hfault, rfl, ⟨driven 0 1 ⟨"P", .vector 8, 0⟩ "p", 2⟩, rfl, rfl, rfl⟩

/-- A call that fails can leave signals, one of them driven by an instance that is not there. -/
theorem failed_copy_leaves_signals :
    let op := (blank 1 "top" 4 true).after (lateByteCalls.map (splitterLibrary, ·))
    let op' := op.step (splitterLibrary, brokenCopy)
    (∃ failure, (perform splitterLibrary brokenCopy op).result = .error failure) ∧
      ¬ Untouched op op' ∧ ¬ op'.Listed := by
  intro op op'
  have hop : op = lateByte := (leads_lateByteCalls splitterLibrary).2
  have hop' : op' = lateByte.step (splitterLibrary, brokenCopy) :=
    congrArg (fun o : Operator => o.step (splitterLibrary, brokenCopy)) hop
  obtain ⟨failure, hfails, -, hinstances, s, hs, hid, hdriver⟩ := brokenCopy_fails
  refine ⟨⟨failure, hop ▸ hfails⟩, fun huntouched => ?_, fun hlisted => ?_⟩
  · -- the third signal is new
    have hsignals := huntouched.signals
    rw [hop', hop] at hsignals
    rw [Netlist.signal?, hsignals, hid] at hs
    cases hs
  · rw [hop'] at hlisted
    obtain ⟨inst, hinst, -⟩ := hlisted s 0 "P" hs hdriver
    rw [hinstances] at hinst
    cases hinst

/-! ## Every operator -/

theorem sound_after (hop : op.Sound) (script : Script) : (op.after script).Sound := by
  induction script generalizing op with
  | nil => exact hop
  | cons entry script ih => exact ih (evolves_step hop entry).1

/-- Whatever was called on an operator before, an instantiation that fails makes no entry, and
leaves no more than the stages and signals of the ports that were connected before. As long as no
instantiation fails, each signal that an instance drives is listed by it. -/
theorem failed_instantiation_remainder (handle : Handle) (opName : String) (period : Float)
    (pipelined : Bool) (script : Script) :
    let op := (blank handle opName period pipelined).after script
    (∀ (lib : Library) (sub : Handle) (name : String) (wiring : Wiring) (failure : Failure),
      (perform lib (.instantiate sub name wiring) op).result = .error failure →
        ∃ stages outs, Remainder lib sub wiring op
          (op.step (lib, .instantiate sub name wiring)) failure.fault stages outs) ∧
    ((blank handle opName period pipelined).CopiesSucceed script → op.Listed) := by
  intro op
  have hblank := sound_blank handle opName period pipelined
  constructor
  · intro lib sub name wiring failure hfails
    exact remainder_of_failed (sound_after hblank script)
      (nonneg_after handle opName period pipelined script) hfails
  · exact listed_after (listed_blank handle opName period pipelined) hblank

/-- What the broken copy leaves. -/
theorem remainder_of_brokenCopy :
    let op := (blank 1 "top" 4 true).after (lateByteCalls.map (splitterLibrary, ·))
    (∃ failure, (perform splitterLibrary brokenCopy op).result = .error failure ∧
      ∃ stages outs, Remainder splitterLibrary 0
        (((Wiring.input {} "X" "a").output "P" "p").output "Q" "a") op
        (op.step (splitterLibrary, brokenCopy)) failure.fault stages outs) ∧
    (blank 1 "top" 4 true).CopiesSucceed (lateByteCalls.map (splitterLibrary, ·)) ∧ op.Listed := by
  intro op
  obtain ⟨failure, hfails, -⟩ := brokenCopy_fails
  rw [← (leads_lateByteCalls splitterLibrary).2] at hfails
  have hscript : (blank 1 "top" 4 true).CopiesSucceed
      (lateByteCalls.map (splitterLibrary, ·)) := by
    refine ⟨fun hplaces => ?_, fun hplaces => ?_, trivial⟩ <;> cases hplaces
  obtain ⟨hremainder, hlisted⟩ := failed_instantiation_remainder 1 "top" 4 true
    (lateByteCalls.map (splitterLibrary, ·))
  exact ⟨⟨failure, hfails, hremainder _ _ _ _ _ hfails⟩, hscript, hlisted hscript⟩

end Operator

end Retime
