import Retime.Proofs.Dataflow.Supply
import Retime.Proofs.Operator.Arrivals

/-! # Connecting ports one after another

What has happened when the first of the inputs are connected, when the first of the outputs
are, and when the next one cannot be connected: stages of the signals that inputs take are
appended, outputs are declared and arrive, and nothing of it is taken back.
-/

namespace Retime

/-- The roots of the signals that inputs are connected to. -/
def Netlist.rootsOf (n : Netlist) (entries : List (String × Actual)) : List Signal :=
  entries.filterMap fun entry =>
    match entry.2 with
    | .signal id => (n.signal? id).map n.root
    | .constant _ => none

theorem Netlist.rootsOf_append (n : Netlist) (entries entries' : List (String × Actual)) :
    n.rootsOf (entries ++ entries') = n.rootsOf entries ++ n.rootsOf entries' :=
  List.filterMap_append

namespace Operator

open Retime.Action Dataflow

/-- One input is connected: a constant as it is, a signal by a request for its value. -/
inductive Fetches (wiring : Wiring) (cycle : Nat) (op : Operator) (p : Port) :
    String × Actual → Operator → Prop where
  | constant (text : String) (bound : wiring.inputs.lookup p.name = some (.constant text)) :
      Fetches wiring cycle op p (p.name, .constant text) op
  | signal (name : String) (s : Signal) (id : SignalId) (d : Dataflow)
      (bound : wiring.inputs.lookup p.name = some (.signal name))
      (found : op.flow.netlist.find name = .ok s)
      (answered : op.flow.Answered (op.flow.netlist.root s) s cycle id d) :
      Fetches wiring cycle op p (p.name, .signal id)
        { op with flow := d, consumed := op.consumed.insert s.id }

/-- An input cannot be connected: nothing is done, or some of the stages are appended that were
missing behind the signal it is to be connected to. -/
inductive InputFails (wiring : Wiring) (cycle : Nat) (op : Operator) (p : Port) :
    Fault → Operator → Prop where
  | unbound (itf : String) (bound : wiring.inputs.lookup p.name = none) :
      InputFails wiring cycle op p (.unboundPort itf p.name) op
  | unknown (name : String) (e : Fault)
      (bound : wiring.inputs.lookup p.name = some (.signal name))
      (missing : op.flow.netlist.find name = .error e) : InputFails wiring cycle op p e op
  | refused (name : String) (s : Signal) (e : Fault)
      (bound : wiring.inputs.lookup p.name = some (.signal name))
      (found : op.flow.netlist.find name = .ok s)
      (fault : (∃ expected found, e = .widthMismatch p.name name expected found) ∨
        e = .outputNotReadable name ∨ ∃ requested, e = .backwardReference name s.cycle requested) :
      InputFails wiring cycle op p e op
  | hindered (name : String) (s : Signal) (e : Fault) (count : Nat)
      (bound : wiring.inputs.lookup p.name = some (.signal name))
      (found : op.flow.netlist.find name = .ok s)
      (short : (op.flow.stages (op.flow.netlist.root s).id).size + count <
        cycle - (op.flow.netlist.root s).cycle)
      (hindered : op.flow.Hindered (op.flow.netlist.root s) count e) :
      InputFails wiring cycle op p e
        { op with flow := op.flow.growBy (op.flow.netlist.root s) count }

/-- The inputs `ports` are connected, as `entries` lists them. -/
structure Bound (wiring : Wiring) (cycle : Nat) (op op' : Operator) (ports : List Port)
    (entries : List (String × Actual)) : Prop where
  lengthened : op.Lengthened op'
  connects : List.Forall₂ (Connects wiring cycle op.flow op'.flow) ports entries
  supplies : ∃ new, op.flow.Supplies op'.flow cycle (op'.flow.netlist.rootsOf entries) new
  same : SameEntries op op'
  timeline_eq : op'.timeline = op.timeline
  consumed : ∀ id, id ∈ op'.consumed → id ∈ op.consumed ∨ ∃ p ∈ ports, ∃ name s,
    wiring.inputs.lookup p.name = some (.signal name) ∧
      op'.flow.netlist.find name = .ok s ∧ s.id = id
  consumed_kept : ∀ id, id ∈ op.consumed → id ∈ op'.consumed

/-- The declarations of the signals that connected outputs drive. -/
def drivenBy (wiring : Wiring) (place cycle : Nat) (ports : List Port) : List Declaration :=
  ports.filterMap fun p => (wiring.outputs.lookup p.name).map (driven place cycle p)

/-- The outputs `ports` are connected. -/
structure Drove (wiring : Wiring) (place cycle : Nat) (op op' : Operator) (ports : List Port)
    (entries : List (String × Option SignalId)) : Prop where
  signals : ∃ new, op'.flow.netlist.signals.toList = op.flow.netlist.signals.toList ++ new ∧
    new.map (·.toDeclaration) = drivenBy wiring place cycle ports ∧
      new.map (·.id) = entries.filterMap (·.2)
  lines : op'.flow.lines = op.flow.lines
  same : SameEntries op op'
  consumed : op'.consumed = op.consumed
  timeline : op.timeline.arriveAll cycle (wiring.arrivals ports) = .ok op'.timeline

/-- An output cannot be connected: the name of its signal is taken, or the signal is declared
and its delay is refused. -/
inductive OutputFails (wiring : Wiring) (place cycle : Nat) (op : Operator) (p : Port) :
    Fault → Operator → Prop where
  | taken (name : String) (bound : wiring.outputs.lookup p.name = some name)
      (taken : op.flow.netlist.contains name = true) :
      OutputFails wiring place cycle op p (.duplicateSignal name) op
  | late (name : String) (e : Fault) (bound : wiring.outputs.lookup p.name = some name)
      (free : op.flow.netlist.contains name = false)
      (late : op.timeline.arrive cycle p.delay = .error e) :
      OutputFails wiring place cycle op p e
        { op with flow.netlist := op.flow.netlist.add (driven place cycle p name) }

variable {wiring : Wiring} {cycle place : Nat} {op op' op'' : Operator} {ports : List Port}
  {p : Port}

/-! ## One input -/

theorem wp_read_exact (h : op.flow.Sound) (name : String) (cycle : Nat) :
    (read name cycle).wp
      (fun id op' => ∃ s d, op.flow.netlist.find name = .ok s ∧
        op.flow.Answered (op.flow.netlist.root s) s cycle id d ∧
          op' = { op with flow := d, consumed := op.consumed.insert s.id })
      (fun e op' => op.flow.netlist.find name = .error e ∧ op' = op ∨
        ∃ s, op.flow.netlist.find name = .ok s ∧
          (e = .outputNotReadable name ∧ op' = op ∨
            ∃ d, op.flow.Refused (op.flow.netlist.root s) s cycle e d ∧
              op' = { op with flow := d })) op := by
  unfold read
  rw [wp_bind, wp_find]
  refine ⟨fun s hfind => ?_, fun e he => .inl ⟨he, rfl⟩⟩
  rw [wp_ite]
  refine ⟨fun _ => .inr ⟨s, hfind, .inl ⟨rfl, rfl⟩⟩, fun _ => ?_⟩
  obtain ⟨hs, -⟩ := h.lawful.find_ok.mp hfind
  obtain ⟨hrooted, hcarries⟩ := h.rooted hs
  rw [wp_bind, wp_onFlow]
  apply (wp_resolve_exact hrooted hs hcarries cycle).mono
  · intro id d hd
    exact ⟨s, d, hfind, hd, rfl⟩
  · intro e d hd
    exact .inr ⟨s, hfind, .inr ⟨d, hd, rfl⟩⟩

theorem wp_connectInput_exact (h : op.flow.Sound) (itf : Interface) (p : Port) :
    (connectInput itf wiring cycle p).wp (Fetches wiring cycle op p)
      (InputFails wiring cycle op p) op := by
  unfold connectInput
  split
  next hbound => exact .unbound itf.name hbound
  next text hbound => exact .constant text hbound
  next name hbound =>
    rw [wp_bind, wp_find]
    refine ⟨fun s hfind => ?_, fun e he => .unknown name e hbound he⟩
    rw [wp_ite]
    refine ⟨fun _ => .refused name s _ hbound hfind (.inl ⟨_, _, rfl⟩), fun _ => ?_⟩
    rw [wp_bind]
    apply (wp_read_exact h name cycle).mono
    · rintro id op' ⟨s', d, hfind', hanswered, rfl⟩
      exact .signal name s' id d hbound hfind' hanswered
    · rintro e op' (⟨he, -⟩ | ⟨s', hfind', hfault⟩)
      · rw [hfind] at he
        cases he
      obtain rfl := Except.ok.inj (hfind.symm.trans hfind')
      rcases hfault with ⟨he, rfl⟩ | ⟨d, hrefused, rfl⟩
      · exact .refused name s e hbound hfind (.inr (.inl he))
      · cases hrefused with
        | early lt fault_eq kept =>
            subst kept
            have hname := (h.lawful.find_ok.mp hfind).2
            exact .refused name s e hbound hfind (.inr (.inr ⟨cycle, hname ▸ fault_eq⟩))
        | hindered count lt short hindered grown =>
            subst grown
            exact .hindered name s e count hbound hfind short hindered

/-! ## The inputs so far -/

theorem sameEntries_refl (op : Operator) : SameEntries op op :=
  ⟨rfl, rfl, rfl, rfl, rfl, rfl⟩

theorem SameEntries.trans (h : SameEntries op op') (h' : SameEntries op' op'') :
    SameEntries op op'' where
  handle := h'.handle.trans h.handle
  name := h'.name.trans h.name
  inputs := h'.inputs.trans h.inputs
  outputs := h'.outputs.trans h.outputs
  instances := h'.instances.trans h.instances
  schedule := h'.schedule.trans h.schedule

theorem bound_nil (h : op.flow.Sound) : Bound wiring cycle op op [] [] where
  lengthened := .refl h
  connects := .nil
  supplies := ⟨[], supplies_nil op.flow cycle⟩
  same := sameEntries_refl op
  timeline_eq := rfl
  consumed _ hid := .inl hid
  consumed_kept _ hid := hid

section Bound

variable {entries : List (String × Actual)} (h : Bound wiring cycle op op' ports entries)
include h

/-- What an input is connected to is there. -/
theorem Bound.signal_of_mem {formal : String} {id : SignalId}
    (hmem : (formal, .signal id) ∈ entries) :
    ∃ s, op'.flow.netlist.signal? id = some s ∧ s.id = id := by
  obtain ⟨p, -, hconnects⟩ := exists_left_of_forall₂ h.connects hmem
  cases hconnects with
  | signal name id bound reads width =>
      obtain ⟨s, hs, -⟩ := width
      exact ⟨s, hs, h.lengthened.sound.lawful.id_eq hs⟩

/-- Later calls do not change the roots. -/
theorem Bound.rootsOf_eq {d : Dataflow} (hext : op'.flow.Extends d) :
    d.netlist.rootsOf entries = op'.flow.netlist.rootsOf entries := by
  apply List.filterMap_congr
  rintro ⟨formal, actual⟩ hmem
  cases actual with
  | constant text => rfl
  | signal id =>
      obtain ⟨s, hs, rfl⟩ := h.signal_of_mem hmem
      simp only [hs, hext.netlist _ _ hs, Option.map_some]
      rw [hext.root_eq h.lengthened.sound hs]

/-- A name that an input is connected to keeps its signal. -/
theorem Bound.find_eq {d : Dataflow} (hd : d.Sound) (hext : op'.flow.Extends d) {name : String}
    {s : Signal} (hfind : op'.flow.netlist.find name = .ok s) : d.netlist.find name = .ok s :=
  hext.find h.lengthened.sound hd hfind

/-- The root of a signal that is there now was there before the first input. -/
theorem Bound.root_mem {s : Signal} (hs : op'.flow.netlist.signal? s.id = some s) :
    op.flow.netlist.signal? (op'.flow.netlist.root s).id = some (op'.flow.netlist.root s) := by
  obtain ⟨hroot, hnone, -⟩ := h.lengthened.sound.root_spec hs
  rcases h.lengthened.signals hroot with hold | hstage
  · exact hold
  · rw [hnone] at hstage
    cases hstage

/-- One more input is connected. -/
theorem Bound.snoc {p : Port} {entry : String × Actual} (hfetches : Fetches wiring cycle op' p entry op'')
    (hlonger : op'.Lengthened op'') (hconnects : Connects wiring cycle op'.flow op''.flow p entry) :
    Bound wiring cycle op op'' (ports ++ [p]) (entries ++ [entry]) := by
  have hext := hlonger.extends_flow
  have hold := h.connects.imp fun _ _ hc => hc.mono h.lengthened.sound hext
  have hnew := h.lengthened.connects hlonger.sound hconnects
  have hconnected := List.rel_append hold (.cons hnew .nil)
  have hlengthened := h.lengthened.trans hlonger
  obtain ⟨new, hsupplies⟩ := h.supplies
  -- names that inputs were connected to before are found where they were
  have hnamed : ∀ id, id ∈ op'.consumed → id ∈ op.consumed ∨ ∃ q ∈ ports ++ [p], ∃ name s,
      wiring.inputs.lookup q.name = some (.signal name) ∧
        op''.flow.netlist.find name = .ok s ∧ s.id = id := by
    intro id hid
    apply (h.consumed id hid).imp_right
    rintro ⟨q, hq, name, s, hbound, hfind, hs⟩
    exact ⟨q, List.mem_append_left _ hq, name, s, hbound, h.find_eq hlonger.sound hext hfind, hs⟩
  cases hfetches with
  | constant text bound =>
      refine ⟨hlengthened, hconnected, ⟨new, ?_⟩, h.same, h.timeline_eq, hnamed, h.consumed_kept⟩
      rw [Netlist.rootsOf_append]
      simpa [Netlist.rootsOf] using hsupplies
  | signal name s id d bound found answered =>
      obtain ⟨hs, -⟩ := h.lengthened.sound.lawful.find_ok.mp found
      obtain ⟨t, ht, rfl⟩ := answered.rooted.carries_mem answered.carries
      obtain ⟨hroot, -⟩ := answered.rooted.root_eq ht answered.carries
      have hroots : d.netlist.rootsOf (entries ++ [(p.name, .signal t.id)]) =
          op'.flow.netlist.rootsOf entries ++ [op'.flow.netlist.root s] := by
        rw [Netlist.rootsOf_append, h.rootsOf_eq hext]
        simp [Netlist.rootsOf, ht, hroot]
      have hrequested := hsupplies.request (h.root_mem hs) answered.carries.le answered
      rw [← hroots] at hrequested
      refine ⟨hlengthened, hconnected, ⟨_, hrequested⟩,
        h.same.trans ⟨rfl, rfl, rfl, rfl, rfl, rfl⟩, h.timeline_eq, fun id hid => ?_,
        fun id hid => ?_⟩
      · rcases Std.HashSet.mem_insert.mp hid with hself | hid
        · refine .inr ⟨p, by simp, name, s, bound, ?_, by simpa using hself⟩
          exact h.find_eq hlonger.sound hext found
        · exact hnamed id hid
      · exact Std.HashSet.mem_insert.mpr (.inr (h.consumed_kept id hid))

end Bound

/-- Inputs are connected one after another, up to one that cannot be connected. -/
theorem wp_connectInputs_exact (h : op.flow.Sound) (itf : Interface) (ports : List Port) :
    (forEach (connectInput itf wiring cycle) ports).wp
      (fun entries op' => Bound wiring cycle op op' ports entries)
      (fun e op' => ∃ done p rest entries op₁, ports = done ++ p :: rest ∧
        Bound wiring cycle op op₁ done entries ∧ InputFails wiring cycle op₁ p e op') op := by
  refine wp_forEach (fun done entries op' => Bound wiring cycle op op' done entries)
    (bound_nil h) ?_
  intro done p rest entries op' hports hbound
  have hsound := hbound.lengthened.sound
  apply ((wp_connectInput_exact hsound itf p).and (wp_connectInput hsound itf cycle p)).mono
  · rintro entry op'' ⟨hfetches, hlonger, hconnects⟩
    exact hbound.snoc hfetches hlonger hconnects
  · rintro e op'' ⟨hfails, -⟩
    exact ⟨done, p, rest, entries, op', hports.symm, hbound, hfails⟩

/-! ## The outputs so far -/

theorem drivenBy_append (wiring : Wiring) (place cycle : Nat) (ports ports' : List Port) :
    drivenBy wiring place cycle (ports ++ ports') =
      drivenBy wiring place cycle ports ++ drivenBy wiring place cycle ports' :=
  List.filterMap_append

theorem drove_nil (op : Operator) : Drove wiring place cycle op op [] [] where
  signals := ⟨[], by simp, rfl, rfl⟩
  lines := rfl
  same := sameEntries_refl op
  consumed := rfl
  timeline := rfl

section Drove

variable {entries : List (String × Option SignalId)}
  (h : Drove wiring place cycle op op' ports entries)
include h

theorem Drove.unbound {p : Port} (hbound : wiring.outputs.lookup p.name = none) :
    Drove wiring place cycle op op' (ports ++ [p]) (entries ++ [(p.name, none)]) where
  signals := by
    obtain ⟨new, hsignals, hdecls, hids⟩ := h.signals
    refine ⟨new, hsignals, ?_, by simpa using hids⟩
    rw [drivenBy_append, hdecls]
    simp [drivenBy, hbound]
  lines := h.lines
  same := h.same
  consumed := h.consumed
  timeline := by
    rw [Wiring.arrivals_append, Timeline.arriveAll_append, h.timeline]
    simp [Wiring.arrivals, hbound, Except.bind]

theorem Drove.signal {p : Port} {name : String} {t : Timeline}
    (hbound : wiring.outputs.lookup p.name = some name)
    (harrive : op'.timeline.arrive cycle p.delay = .ok t) :
    Drove wiring place cycle op
      { op' with
        flow.netlist := op'.flow.netlist.add (driven place cycle p name)
        timeline := t }
      (ports ++ [p]) (entries ++ [(p.name, some op'.flow.netlist.size)]) where
  signals := by
    obtain ⟨new, hsignals, hdecls, hids⟩ := h.signals
    refine ⟨new ++ [⟨driven place cycle p name, op'.flow.netlist.size⟩], ?_, ?_, ?_⟩
    · rw [← List.append_assoc, ← hsignals]
      exact Array.toList_push
    · rw [drivenBy_append, List.map_append, hdecls]
      simp [drivenBy, hbound]
    · rw [List.map_append, List.filterMap_append, hids]
      rfl
  lines := h.lines
  same := h.same.trans ⟨rfl, rfl, rfl, rfl, rfl, rfl⟩
  consumed := h.consumed
  timeline := by
    have harrivals : wiring.arrivals [p] = [p.delay] := by simp [Wiring.arrivals, hbound]
    rw [Wiring.arrivals_append, Timeline.arriveAll_append, h.timeline, harrivals]
    exact (Timeline.arriveAll_singleton _ _ _).trans harrive

end Drove

/-- Outputs are connected one after another, up to one that cannot be connected. -/
theorem wp_connectOutputs_exact (op : Operator) (wiring : Wiring) (place cycle : Nat)
    (ports : List Port) : (forEach (connectOutput wiring place cycle) ports).wp
      (fun entries op' => Drove wiring place cycle op op' ports entries)
      (fun e op' => ∃ done p rest entries op₁, ports = done ++ p :: rest ∧
        Drove wiring place cycle op op₁ done entries ∧ OutputFails wiring place cycle op₁ p e op')
      op := by
  refine wp_forEach (fun done entries op' => Drove wiring place cycle op op' done entries)
    (drove_nil op) ?_
  intro done p rest entries op' hports hdrove
  unfold connectOutput
  split
  next hbound => exact hdrove.unbound hbound
  next name hbound =>
    rw [wp_bind, wp_onFlow, wp_declare]
    constructor
    · intro htaken
      exact ⟨done, p, rest, entries, op', hports.symm, hdrove, .taken name hbound htaken⟩
    · intro hfree
      rw [wp_bind, wp_onTimeline]
      constructor
      · intro t ht
        exact hdrove.signal hbound ht
      · intro e he
        exact ⟨done, p, rest, entries, op', hports.symm, hdrove, .late name e hbound hfree he⟩

end Operator

end Retime
