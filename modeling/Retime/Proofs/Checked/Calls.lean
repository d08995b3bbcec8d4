import Retime.Proofs.Checked.Dataflow
import Retime.Proofs.Library.Arena
import Retime.Proofs.Operator.Counted
import Retime.Proofs.Operator.Finish
import Retime.Proofs.Operator.Ports

/-! # Checked calls

On an operator whose lines are sound, whose ports are listed and whose cycles can be counted,
every checked call does what the call of the engine does. What one part of a call relies on is
what the part before it left: a read leaves sound lines that carry the value, and an output
that was exposed is in the table.
-/

namespace Retime

open Retime.Action

/-- What the indices of an operator rely on. -/
structure Operator.InRange (op : Operator) : Prop where
  sound : op.Sound
  ports : op.PortsListed
  counted : op.Counted
  /-- What a signal is assigned by its id is in the table. -/
  values : ∀ {schedule}, op.schedule = some schedule → ∀ a ∈ schedule.assignments,
    ∀ id, a.value = .signal id → ∃ s, op.flow.netlist.signal? id = some s

namespace Operator

variable {op : Operator}

theorem inRange_blank (handle : Handle) (name : String) (period : Float) (pipelined : Bool) :
    (blank handle name period pipelined).InRange where
  sound := sound_blank handle name period pipelined
  ports := portsListed_blank handle name period pipelined
  counted := counted_blank handle name period pipelined
  values hschedule := by cases hschedule

/-- Realigned outputs are assigned the last stages behind what holds their values. -/
theorem Finished.values {op' : Operator} {schedule : Schedule} {exposed : List ExposedOutput}
    (h : Finished op op' schedule exposed) {a : Assignment} (ha : a ∈ schedule.assignments)
    {id : SignalId} (hid : a.value = .signal id) : ∃ s, op'.flow.netlist.signal? id = some s := by
  have hmem := (laidOut h.layOut).assignments_perm.mem_iff.mp ha
  obtain ⟨⟨cycle, _⟩, hdated, rfl⟩ := List.mem_map.mp hmem
  obtain ⟨s, -, hassignment⟩ := List.mem_filterMap.mp hdated
  unfold assignment? at hassignment
  split at hassignment
  · split at hassignment
    next r hfound =>
      cases hassignment
      obtain rfl := Value.signal.inj hid
      obtain ⟨e, he, hr⟩ := List.mem_filterMap.mp (List.mem_of_find?_eq_some hfound)
      obtain ⟨out, -, hexposes⟩ := exists_left_of_forall₂ h.exposes he
      cases hexposes with
      | direct => cases hr
      | realigned port base last mem lt held_mem carries =>
          cases hr
          rcases carries with ⟨-, rfl⟩ | ⟨k, -, hk⟩
          · exact ⟨_, held_mem⟩
          · obtain ⟨root, -, -, -, hlast⟩ := h.aligned.sound.stage hk
            exact ⟨_, hlast⟩
    · cases hassignment
      cases hid
  · cases hassignment
    cases hid
  · cases hassignment

/-- Every call leaves an operator in range, whether it succeeds or fails. -/
theorem InRange.step (h : op.InRange) (lib : Library) {c : Call} (hc : c.Countable) :
    (op.step (lib, c)).InRange where
  sound := (evolves_step h.sound (lib, c)).1
  ports := keeps_step keeps_portsListed h.ports (lib, c)
  counted := by
    unfold Operator.step
    cases hopen : op.isFinished with
    | true =>
        rw [(perform_of_closed hopen).2]
        exact h.counted
    | false =>
        rw [(perform_of_open hopen).2]
        exact (keeps_execute_counted lib hc op h.counted).state
  values hschedule a ha id hid := by
    rcases finished_of_step h.sound (lib, c) hschedule with hsame | ⟨exposed, hfinished⟩
    · rw [hsame] at hschedule ⊢
      exact h.values hschedule a ha id hid
    · exact hfinished.values ha hid

/-- An input is in the table. -/
theorem InRange.input (h : op.InRange) {id : SignalId} (hid : id ∈ op.inputs.toList) :
    ∃ s, op.flow.netlist.signal? id = some s := by
  rw [h.ports.inputs] at hid
  obtain ⟨s, hs, rfl⟩ := List.mem_map.mp hid
  exact ⟨s, h.sound.flow.lawful.mem_signals.mp (List.mem_filter.mp hs).1⟩

end Operator

namespace Checked

open Operator (onFlow)
open Dataflow

variable {op : Operator} {lib : Library}

theorem agrees_onFlow {α : Type} {m : Action Fault Dataflow α}
    {m' : Action (Halt Fault) Dataflow α} (hm : Agrees m' m op.flow) :
    Agrees (onFlow m') (onFlow m) op :=
  hm.zoom

/-! ## Reading -/

theorem agrees_find (h : op.flow.Sound) (name : String) :
    Agrees (find name) (Operator.find name) op :=
  agrees_get (agrees_ofExcept (lookup_eq h.lawful name) op)

theorem agrees_read (h : op.flow.Sound) {cycle : Nat} (hcycle : cycle ≤ maxCycle)
    (name : String) : Agrees (read name cycle) (Operator.read name cycle) op := by
  refine (agrees_find h name).bind (Operator.wp_find.mpr ⟨fun s hfind => ?_, fun _ _ => trivial⟩)
  obtain ⟨hs, -⟩ := h.lawful.find_ok.mp hfind
  refine Agrees.ite (fun _ => agrees_stop _ _) fun hrole => ?_
  refine (agrees_onFlow (agrees_resolve h hs hrole hcycle)).andThen fun id t => ?_
  exact (agrees_modify _ t).andThen fun _ _ => agrees_pure _ _

/-- What was read is in the table. -/
theorem signal_of_reads {old d : Dataflow} {name : String} {cycle : Nat} {id : SignalId}
    (h : old.Reads d name cycle id) (hd : d.Sound) : ∃ s, d.netlist.signal? id = some s := by
  obtain ⟨s, hs, -, hrole, hcarries, -⟩ := h
  obtain ⟨hroot, hnone, -⟩ := hd.root_spec hs
  obtain ⟨t, ht, -⟩ := hcarries.signal hd hroot hnone (hd.root_role hs hrole)
  exact ⟨t, ht⟩

theorem agrees_consume (h : op.InRange) (name : String) :
    Agrees (consume name) (Operator.consume name) op := by
  refine agrees_get ((agrees_read h.sound.flow h.counted.timeline name).bind ?_)
  refine (Operator.wp_read h.sound.flow name _).mono ?_ fun _ _ _ => trivial
  rintro id op' ⟨hlonger, hreads⟩
  obtain ⟨s, hs⟩ := signal_of_reads hreads hlonger.sound
  refine agrees_get (agrees_check (entry_eq_ok.mpr hs) ?_)
  rw [Netlist.name_of_signal hs]
  exact agrees_pure _ _

theorem agrees_consumeField (h : op.InRange) (name : String) (field : FloatField) :
    Agrees (consumeField name field) (Operator.consumeField name field) op := by
  refine (agrees_find h.sound.flow name).bind ?_
  refine Operator.wp_find.mpr ⟨fun s _ => ?_, fun _ _ => trivial⟩
  cases s.width.fieldRange? field with
  | none => exact agrees_stop _ _
  | some range => exact (agrees_consume h name).andThen fun _ _ => agrees_pure _ _

/-! ## Interfaces -/

theorem port_eq {id : SignalId} {s : Signal} (hs : op.flow.netlist.signal? id = some s)
    (delay : Float) : ∃ p, port op id delay = .ok p ∧ op.port? id delay = some p := by
  have hentry : entry op.flow.netlist.signals id = .ok s := entry_eq_ok.mpr hs
  refine ⟨{ name := s.name, width := s.width, delay }, ?_, ?_⟩
  · unfold port
    rw [hentry]
    rfl
  · unfold Operator.port?
    rw [hs]
    rfl

theorem interface?_eq (h : op.InRange) : interface? op = .ok op.interface? := by
  unfold interface? Operator.interface?
  cases op.schedule with
  | none => rfl
  | some schedule =>
      have hinputs : op.inputs.toList.mapM (port op · 0) =
          .ok (op.inputs.toList.filterMap (op.port? · 0)) := by
        apply mapM_eq_filterMap
        intro id hid
        obtain ⟨s, hs⟩ := h.input hid
        exact port_eq hs 0
      have houtputs : (op.outputs.toList.zip schedule.outputDelays).mapM
          (fun o => port op o.1.signal o.2) =
            .ok ((op.outputs.toList.zip schedule.outputDelays).filterMap
              fun o => op.port? o.1.signal o.2) := by
        apply mapM_eq_filterMap
        intro o ho
        have hmem := Array.mem_toList_iff.mp (List.of_mem_zip ho).1
        obtain ⟨s, -, hs, -⟩ := h.sound.outputs o.1 hmem
        exact port_eq hs o.2
      simp only [hinputs, houtputs]
      rfl

theorem interface_eq (h : ∀ {h op}, lib.operator? h = some op → op.InRange) (sub : Handle) :
    interface lib sub = (lib.interface sub).mapError .error := by
  unfold interface Library.interface
  cases hslot : lib.slots[sub]? with
  | none => rfl
  | some slot =>
      cases hop : slot.operator with
      | none =>
          simp only [hop]
          rfl
      | some op =>
          have hrange : op.InRange := h (Library.operator?_eq_some.mpr ⟨slot, hslot, hop⟩)
          simp only [Option.bind_some, hop, interface?_eq hrange]
          cases op.interface? <;> rfl

theorem subInterface_eq (h : ∀ {h op}, lib.operator? h = some op → op.InRange) (sub : Handle) :
    subInterface op lib sub = (op.subInterface lib sub).mapError .error := by
  unfold subInterface Operator.subInterface
  split
  · rfl
  · exact interface_eq h sub

/-! ## Instantiation -/

theorem agrees_connectInput (h : op.flow.Sound) {cycle : Nat} (hcycle : cycle ≤ maxCycle)
    (itf : Interface) (wiring : Wiring) (p : Port) :
    Agrees (connectInput itf wiring cycle p) (Operator.connectInput itf wiring cycle p) op := by
  unfold connectInput Operator.connectInput
  cases wiring.inputs.lookup p.name with
  | none => exact agrees_stop _ _
  | some source =>
      cases source with
      | constant text => exact agrees_pure _ _
      | signal name =>
          refine (agrees_find h name).bind ?_
          refine Operator.wp_find.mpr ⟨fun s _ => ?_, fun _ _ => trivial⟩
          refine Agrees.ite (fun _ => agrees_stop _ _) fun _ => ?_
          exact (agrees_read h hcycle name).andThen fun _ _ => agrees_pure _ _

theorem agrees_instantiate (h : op.InRange)
    (hlib : ∀ {h op}, lib.operator? h = some op → op.InRange) (sub : Handle) (name : String)
    (wiring : Wiring) :
    Agrees (instantiate lib sub name wiring) (Operator.instantiate lib sub name wiring) op := by
  refine agrees_get (Agrees.ite (fun _ => agrees_stop _ _) fun _ => ?_)
  refine (agrees_ofExcept (subInterface_eq hlib sub) op).bind ?_
  refine wp_ofExcept.mpr ⟨fun itf _ => ?_, fun _ _ => trivial⟩
  refine (agrees_halting _ op).bind (wp_ofExcept.mpr ⟨fun _ _ => ?_, fun _ _ => trivial⟩)
  refine (agrees_halting _ op).bind (wp_ofExcept.mpr ⟨fun outputCycle _ => ?_, fun _ _ => trivial⟩)
  -- each input is connected on sound lines, which the ones before it only lengthened
  have hinputs : Agrees (forEach (connectInput itf wiring op.timeline.cycle) itf.inputs)
      (forEach (Operator.connectInput itf wiring op.timeline.cycle) itf.inputs) op := by
    refine agrees_forEach (I := fun op' => op'.flow.Sound) h.sound.flow fun p _ op' hop' => ?_
    refine ⟨agrees_connectInput hop' h.counted.timeline itf wiring p, ?_⟩
    exact (Operator.wp_connectInput hop' itf _ p).mono (fun _ _ hp => hp.1.sound) fun _ _ h => h
  refine hinputs.andThen fun inputs op' => (agrees_halting _ op').andThen fun outputs op'' => ?_
  exact (agrees_report _ op'').andThen fun _ _ => agrees_modify _ _

/-! ## Finishing -/

theorem exposure_eq (h : op.Sound) : exposure op = .ok op.exposure := by
  have houtputs : op.outputs.toList.mapM
      (fun out => (·.cycle) <$> entry op.flow.netlist.signals out.signal) =
        .ok (op.outputs.toList.filterMap fun out =>
          (op.flow.netlist.signal? out.signal).map (·.cycle)) := by
    apply mapM_eq_filterMap
    intro out hout
    obtain ⟨s, -, hs, -⟩ := h.outputs out (Array.mem_toList_iff.mp hout)
    have hentry : entry op.flow.netlist.signals out.signal = .ok s := entry_eq_ok.mpr hs
    exact ⟨s.cycle, by rw [hentry]; rfl, by rw [hs]; rfl⟩
  unfold exposure
  rw [houtputs]
  rfl

theorem agrees_carry {d : Dataflow} (h : d.Sound) {s : Signal}
    (hdriver : ∀ r depth, s.driver ≠ .stage r depth) {cycle : Nat} (hcycle : cycle ≤ maxCycle) :
    Agrees (carry s cycle) (Operator.carry s cycle) d := by
  refine (agrees_halting _ d).bind (wp_declare.mpr ⟨fun _ => trivial, fun hfree => ?_⟩)
  have hempty : d.stages d.netlist.size = #[] :=
    h.stages_of_none (Netlist.signal?_eq_none (Nat.le_refl _))
  have hdeclared : Dataflow.Sound { d with netlist := d.netlist.add (Operator.held s) } :=
    h.declare (show d.netlist.contains (Operator.held s).name = false from hfree) hdriver
  refine (agrees_modify _ _).bind (wp_modify.mpr ?_)
  -- what holds the value is the last entry of the table
  have hbase := agrees_resolve (s := ⟨Operator.held s, d.netlist.size⟩)
    (hdeclared.setStem hempty s.name) (Netlist.signal?_add_size _) (by simp [Operator.held]) hcycle
  exact hbase.andThen fun _ _ => agrees_pure _ _

theorem agrees_expose (h : op.Sound) {out : OutputPort} (hout : out ∈ op.outputs) {depth : Nat}
    (hdepth : depth ≤ maxCycle) :
    Agrees (expose depth out) (Operator.expose depth out) op := by
  obtain ⟨s, text, hs, hdriver⟩ := h.outputs out hout
  refine agrees_get (agrees_check (entry_eq_ok.mpr hs) ?_)
  rw [hs]
  refine Agrees.ite (fun _ => agrees_pure _ _) fun _ => ?_
  refine (agrees_onFlow (agrees_carry h.flow (by simp [hdriver]) hdepth)).andThen ?_
  exact fun _ _ => agrees_pure _ _

/-- The stage before a stage stands in the same line. -/
theorem load?_eq {d : Dataflow} (h : d.Sound) {s : Signal}
    (hs : d.netlist.signal? s.id = some s) : load? d s = .ok (Operator.load? d s) := by
  unfold load? Operator.load?
  cases hdriver : s.driver with
  | stage r depth =>
      obtain ⟨k, rfl, hk⟩ := h.place hs hdriver
      cases k with
      | zero => rfl
      | succ k =>
          have hlt : k < (d.stages r).size :=
            Nat.lt_of_succ_lt (Array.getElem?_eq_some_iff.mp hk).1
          have hbefore := Array.getElem?_eq_getElem hlt
          have hentry := entry_eq_ok.mpr hbefore
          simp [minus_of_le, hbefore, hentry, bind, Except.bind, pure, Except.pure]
  | _ => rfl

theorem place_eq {α : Type} {last : Nat} {dated : Nat × α} (h : dated.1 ≤ last) :
    place last dated = .ok dated :=
  if_pos (Nat.lt_succ_of_le h)

/-- Everything that happens has its slice. -/
theorem slices_eq (h : op.flow.Sound) (depth : Nat) (realignments : List Realignment) :
    slices op depth realignments = .ok (op.slices depth realignments) := by
  have hassignments : op.flow.netlist.signals.toList.mapM (fun s =>
      (Operator.assignment? depth realignments s).mapM (place (op.lastCycle depth))) =
        .ok (op.flow.netlist.signals.toList.map (Operator.assignment? depth realignments)) := by
    apply mapM_eq_map
    intro s hs
    cases hassignment : Operator.assignment? depth realignments s with
    | none => rfl
    | some dated =>
        have hplaced := place_eq (Operator.assignment?_le_lastCycle hs hassignment)
        simp only [Option.mapM_some, hplaced]
        rfl
  have hloads : op.flow.netlist.signals.toList.mapM (fun s => do
      (← load? op.flow s).mapM fun l => place (op.lastCycle depth) (s.cycle, l)) =
        .ok (op.flow.netlist.signals.toList.map fun s =>
          (Operator.load? op.flow s).map (s.cycle, ·)) := by
    apply mapM_eq_map
    intro s hs
    rw [load?_eq h (h.lawful.mem_signals.mp hs)]
    have hcycle : s.cycle ≤ op.lastCycle depth := Operator.cycle_le_lastCycle hs
    cases Operator.load? op.flow s with
    | none => rfl
    | some l =>
        have hplaced : place (op.lastCycle depth) (s.cycle, l) = .ok (s.cycle, l) :=
          place_eq hcycle
        simp [bind, Except.bind, hplaced]
  have hinstances : op.instances.toList.mapM (fun i =>
      place (op.lastCycle depth) (i.inputCycle, i.id)) =
        .ok (op.instances.toList.map fun i => (i.inputCycle, i.id)) := by
    apply mapM_eq_map
    exact fun i hi => place_eq (Operator.inputCycle_le_lastCycle hi)
  unfold slices Operator.slices
  simp only [hassignments, hloads, hinstances]
  simp [bind, Except.bind, pure, Except.pure, List.filterMap_map]

theorem layOut_eq (h : op.flow.Sound) (depth : Nat) (outputs : List Operator.ExposedOutput) :
    layOut op depth outputs = (op.layOut depth outputs).mapError .error := by
  unfold layOut Operator.layOut
  simp only [slices_eq h]
  generalize (op.slices depth _).find? _ = late
  cases late <;> rfl

theorem agrees_finish (h : op.InRange) : Agrees finish Operator.finish op := by
  refine agrees_get (agrees_check (exposure_eq h.sound) (agrees_get ?_))
  have houtputs : Agrees (forEach (expose op.exposure) op.outputs.toList)
      (forEach (Operator.expose op.exposure) op.outputs.toList) op := by
    refine agrees_forEach (I := fun op' => op'.Sound ∧ op'.outputs = op.outputs)
      ⟨h.sound, rfl⟩ fun out hout op' hop' => ?_
    have hout' : out ∈ op'.outputs := hop'.2 ▸ Array.mem_toList_iff.mp hout
    refine ⟨agrees_expose hop'.1 hout' h.counted.exposure, ?_⟩
    refine (Operator.wp_expose hop'.1 hout' _).mono (fun _ op'' hop'' => ?_) fun _ _ h => h
    exact ⟨hop''.1.operator_sound hop'.1, hop''.1.outputs.trans hop'.2⟩
  refine houtputs.bind ((Operator.wp_exposes h.sound _).mono ?_ fun _ _ h => h)
  rintro outputs op' ⟨haligned, -⟩
  refine agrees_get ((agrees_ofExcept (layOut_eq haligned.sound _ _) op').andThen ?_)
  intro schedule op''
  refine (agrees_forEach (I := fun _ => True) trivial fun e _ t _ => ?_).andThen fun _ t => ?_
  · exact ⟨agrees_report e t, trivial⟩
  · exact (agrees_report _ t).andThen fun _ _ => agrees_modify _ _

/-! ## All calls -/

theorem agrees_execute (h : op.InRange) (hlib : ∀ {h op}, lib.operator? h = some op → op.InRange)
    (c : Call) : Agrees (execute lib c) (Operator.execute lib c) op := by
  cases c with
  | consume name => exact (agrees_consume h name).map _
  | consumeField name field => exact (agrees_consumeField h name field).map _
  | jump name =>
      refine (agrees_find h.sound.flow name).andThen fun s t => ?_
      exact Agrees.andThen rfl fun _ _ => agrees_pure _ _
  | join name =>
      refine (agrees_find h.sound.flow name).andThen fun s t => ?_
      exact Agrees.andThen rfl fun _ _ => agrees_pure _ _
  | instantiate sub name wiring =>
      exact (agrees_instantiate h hlib sub name wiring).andThen fun _ _ => agrees_pure _ _
  | finish => exact (agrees_finish h).andThen fun _ _ => agrees_pure _ _
  | _ => exact agrees_halting _ _

/-- Every call, whether it succeeds or fails, does the same if all its steps are checked. -/
theorem agrees_perform (h : op.InRange) (hlib : ∀ {h op}, lib.operator? h = some op → op.InRange)
    (c : Call) : Agrees (perform lib c) (Operator.perform lib c) op := by
  apply agrees_get
  apply Agrees.mapError
  unfold Agrees halting Action.mapError
  cases hopen : op.isFinished with
  | true =>
      rw [Operator.dispatch_of_closed hopen]
      rfl
  | false =>
      rw [Operator.dispatch_of_open hopen]
      exact agrees_execute h hlib c

end Checked

end Retime
