import Retime.Proofs.Operator.Draft
import Retime.Proofs.Operator.Exposure

/-! # Closing an operator

Whatever was called before on an operator that is still open, failed calls included, the call
that finishes it succeeds exactly if the names for its outputs are free.
-/

namespace Retime.Operator

open Retime.Action Dataflow

/-! ## What is to be shown -/

/-- The output `out`, whose signal is `s`, was declared by a call of the script, with the critical
path at that point as its delay. -/
def DeclaredIn (start : Operator) (script : Script) (out : OutputPort) (s : Signal) : Prop :=
  ∃ before lib text later, script = before ++ (lib, .output s.name s.width text) :: later ∧
    s.role = .output ∧ s.driver = .expr text ∧
      s.cycle = (start.after before).timeline.cycle ∧
        out.delay = (start.after before).timeline.criticalPath

/-- The cycle in which all outputs are exposed. -/
def LastCycle (op : Operator) (depth : Nat) : Prop :=
  if op.outputs = #[] then depth = 0
  else IsGreatest {cycle | (∃ out ∈ op.outputs, ∃ s,
      op.flow.netlist.signal? out.signal = some s ∧ cycle = s.cycle) ∨
    ∃ inst ∈ op.instances, cycle = inst.outputCycle} depth

variable {op : Operator} {start : Operator} {script : Script}

/-! ## Outputs of scripts -/

theorem DeclaredIn.append {out : OutputPort} {s : Signal} (h : DeclaredIn start script out s)
    (script' : Script) : DeclaredIn start (script ++ script') out s := by
  obtain ⟨before, lib, text, later, rfl, hrest⟩ := h
  exact ⟨before, lib, text, later ++ script', by simp, hrest⟩

/-- What is known of the outputs after a script. -/
structure OutputsDeclared (start : Operator) (script : Script) : Prop where
  sound : (start.after script).Sound
  nodup : ((start.after script).outputs.toList.map (·.signal)).Nodup
  declared : ∀ out ∈ (start.after script).outputs, ∀ s,
    (start.after script).flow.netlist.signal? out.signal = some s → DeclaredIn start script out s

theorem OutputsDeclared.step (h : OutputsDeclared start script) (entry : Library × Call) :
    OutputsDeclared start (script ++ [entry]) := by
  have hafter : start.after (script ++ [entry]) = (start.after script).step entry := after_append
  obtain ⟨lib, c⟩ := entry
  obtain ⟨hsound, hevolves⟩ := evolves_step h.sound (lib, c)
  have hext := (hevolves.extends h.sound.flow).netlist
  -- the outputs before the call are what they were
  have hold : ∀ out ∈ (start.after script).outputs, ∀ s,
      ((start.after script).step (lib, c)).flow.netlist.signal? out.signal = some s →
        DeclaredIn start (script ++ [(lib, c)]) out s := by
    intro out hout s hs
    obtain ⟨s', text, hs', -⟩ := h.sound.outputs out hout
    obtain rfl := Option.some.inj ((hext _ _ hs').symm.trans hs)
    exact (h.declared out hout _ hs').append [(lib, c)]
  refine ⟨hafter ▸ hsound, ?_, ?_⟩
  · rw [hafter]
    rcases declares_output_of_step h.sound (lib, c) with hsame | ⟨-, -, -, -, -, houtputs⟩
    · exact hsame ▸ h.nodup
    · rw [houtputs, Array.toList_push, List.map_append, List.nodup_append]
      refine ⟨h.nodup, List.nodup_singleton _, fun id hid id' hid' => ?_⟩
      obtain ⟨out, hout, rfl⟩ := List.mem_map.mp hid
      obtain ⟨s, -, hs, -⟩ := h.sound.outputs out (Array.mem_toList_iff.mp hout)
      rw [List.mem_singleton.mp hid']
      exact Nat.ne_of_lt (Netlist.lt_size_of_signal? hs)
  · rw [hafter]
    intro out hout s hs
    rcases declares_output_of_step h.sound (lib, c) with
      hsame | ⟨name, width, text, hcall, hdeclares, houtputs⟩
    · exact hold out (hsame ▸ hout) s hs
    · rw [houtputs] at hout
      rcases Array.mem_push.mp hout with hout | rfl
      · exact hold out hout s hs
      · rw [hdeclares.flow] at hs
        obtain rfl := Option.some.inj ((Netlist.signal?_add_size _).symm.trans hs)
        obtain rfl : c = .output name width text := hcall
        exact ⟨script, lib, text, [], rfl, rfl, rfl, rfl, rfl⟩

theorem outputsDeclared_after (handle : Handle) (name : String) (period : Float)
    (pipelined : Bool) (script : Script) :
    OutputsDeclared (blank handle name period pipelined) script := by
  induction script using List.reverseRecOn with
  | nil =>
      refine ⟨sound_blank handle name period pipelined, ?_, fun out hout => ?_⟩
      · simp [blank]
      · simp [blank] at hout
  | append_singleton script entry ih => exact ih.step entry

/-! ## The last cycle -/

theorem foldl_max_mem {l : List Nat} (h : l ≠ []) : l.foldl max 0 ∈ l := by
  rcases foldl_max_eq_or_mem l 0 with hzero | hl
  · -- all entries are zero
    obtain ⟨a, ha⟩ := List.exists_mem_of_ne_nil l h
    have hle := (le_foldl_max l 0).2 a ha
    rw [hzero] at hle ⊢
    exact Nat.le_zero.mp hle ▸ ha
  · exact hl

theorem lastCycle_exposure (h : op.Sound) : op.LastCycle op.exposure := by
  unfold LastCycle exposure
  split
  next hnone => simp [hnone]
  next hsome =>
    rw [if_neg (by simpa using hsome)]
    generalize hcycles : op.outputs.toList.filterMap
      (fun out => (op.flow.netlist.signal? out.signal).map (·.cycle)) ++
        op.instances.toList.map (·.outputCycle) = cycles
    have hmem : ∀ cycle, cycle ∈ cycles ↔ (∃ out ∈ op.outputs, ∃ s,
        op.flow.netlist.signal? out.signal = some s ∧ cycle = s.cycle) ∨
          ∃ inst ∈ op.instances, cycle = inst.outputCycle := by
      intro cycle
      simp [← hcycles, eq_comm]
    have hne : cycles ≠ [] := by
      obtain ⟨out, hout⟩ := Array.exists_mem_of_ne_empty _ hsome
      obtain ⟨s, -, hs, -⟩ := h.outputs out hout
      exact List.ne_nil_of_mem ((hmem s.cycle).mpr (.inl ⟨out, hout, s, hs, rfl⟩))
    refine ⟨(hmem _).mp (foldl_max_mem hne), fun cycle hcycle => ?_⟩
    exact (le_foldl_max cycles 0).2 cycle ((hmem cycle).mpr hcycle)

theorem LastCycle.le {depth : Nat} (h : op.LastCycle depth) {out : OutputPort}
    (hout : out ∈ op.outputs) {s : Signal} (hs : op.flow.netlist.signal? out.signal = some s) :
    s.cycle ≤ depth := by
  unfold LastCycle at h
  split at h
  next hnone => simp [hnone] at hout
  · exact h.2 (.inl ⟨out, hout, s, hs, rfl⟩)

/-! ## The call that finishes an operator -/

/-- The outcome is determined by the names that are free. -/
theorem wp_finish_exact (h : op.Sound) (hnodup : (op.outputs.toList.map (·.signal)).Nodup)
    (hbounded : op.timeline.pipelined = true → op.timeline.Bounded) :
    finish.wp
      (fun _ op' => ∃ exposed schedule, op'.schedule = some schedule ∧
        Exposed op.exposure op op' op.outputs.toList exposed ∧
          LaidOut op' op.exposure exposed schedule)
      (fun e _ => ∃ out ∈ op.outputs, ∃ name, op.Realigns op.exposure out name ∧
        op.flow.netlist.contains name = true ∧ e = .duplicateSignal name) op := by
  have hexposes := wp_exposes_exact h hnodup fun out hout s hs =>
    (lastCycle_exposure h).le hout hs
  have hsteady : IgnoresFlow fun op' => op'.timeline = op.timeline :=
    ⟨fun _ ht => ht, fun _ ht => ht⟩
  have htimeline : (forEach (expose op.exposure) op.outputs.toList).Keeps
      fun op' => op'.timeline = op.timeline :=
    keeps_forEach fun out _ => keeps_expose hsteady op.exposure out
  refine (wp_finish_of (hexposes.and (htimeline op rfl))).mono ?_ ?_
  · rintro - _ ⟨before, exposed, schedule, ⟨hexposed, -⟩, hschedule, rfl⟩
    have haligned := hexposed.aligned
    refine ⟨exposed, schedule, rfl, ⟨⟨?_, ?_, ?_, ?_, ?_, ?_⟩, ?_, ?_, ?_⟩, laidOut hschedule⟩
    · exact haligned.sound
    · exact haligned.extends_flow
    · exact haligned.signals
    · exact haligned.inputs
    · exact haligned.outputs
    · exact haligned.instances
    · exact hexposed.outputs
    · exact hexposed.free
    · exact hexposed.contains_iff
  · rintro e op' (⟨htaken, -⟩ | ⟨exposed, ⟨-, hsame⟩, herror⟩)
    · exact htaken
    · rw [← hsame] at hbounded
      obtain ⟨schedule, hschedule⟩ :=
        layOut_of_bounded_of_pipelined hbounded op.exposure exposed
      rw [hschedule] at herror
      cases herror

section Perform

variable {lib : Library} (h : op.Sound) (hnodup : (op.outputs.toList.map (·.signal)).Nodup)
  (hbounded : op.timeline.pipelined = true → op.timeline.Bounded)
include h hnodup hbounded

theorem wp_execute_finish : (execute lib .finish).wp
    (fun _ op' => ∃ exposed schedule, op'.schedule = some schedule ∧
      Exposed op.exposure op op' op.outputs.toList exposed ∧
        LaidOut op' op.exposure exposed schedule)
    (fun e _ => ∃ out ∈ op.outputs, ∃ name, op.Realigns op.exposure out name ∧
      op.flow.netlist.contains name = true ∧ e = .duplicateSignal name) op :=
  wp_bind.mpr ((wp_finish_exact h hnodup hbounded).mono (fun _ _ hdone => hdone)
    fun _ _ htaken => htaken)

theorem exposed_of_perform_finish {answer : Option String}
    (hok : (perform lib .finish op).result = .ok answer) :
    ∃ exposed schedule, (perform lib .finish op).state.schedule = some schedule ∧
      Exposed op.exposure op (perform lib .finish op).state op.outputs.toList exposed ∧
        LaidOut (perform lib .finish op).state op.exposure exposed schedule := by
  have hsucceeds : op.Succeeds (lib, .finish) := ⟨answer, hok⟩
  obtain ⟨-, hstate, answer', hok'⟩ := execute_of_succeeds hsucceeds
  have hreached : (perform lib .finish op).state = (execute lib .finish op).state := hstate
  rw [hreached]
  exact (wp_execute_finish h hnodup hbounded).of_ok hok'

theorem taken_of_perform_finish (hopen : op.isFinished = false) {failure : Failure}
    (herror : (perform lib .finish op).result = .error failure) :
    ∃ out ∈ op.outputs, ∃ taken, op.Realigns op.exposure out taken ∧
      op.flow.netlist.contains taken = true ∧
        failure = ⟨op.name, "finalize()", .duplicateSignal taken⟩ := by
  have hfault := execute_of_failed hopen herror
  obtain ⟨out, hout, taken, hrealigns, htaken, hcause⟩ :=
    (wp_execute_finish h hnodup hbounded).of_error hfault
  refine ⟨out, hout, taken, hrealigns, htaken, ?_⟩
  have hresult : (perform lib .finish op).result = _ := (perform_of_open hopen).1
  rw [herror, hfault, hcause] at hresult
  rw [Except.error.inj hresult]
  rfl

end Perform

/-- A pipelined timeline is within its budget after every script. -/
theorem bounded_after {period : Float} (hperiod : 0 ≤ period) (handle : Handle) (name : String)
    (pipelined : Bool) (script : Script) :
    let op := (blank handle name period pipelined).after script
    op.timeline.pipelined = true → op.timeline.Bounded := by
  intro op hpipelined
  cases pipelined with
  | true => exact (budgeted_after hperiod handle name script).toBounded
  | false =>
      have hflat : op.timeline.pipelined = false :=
        timeline_after (P := fun t => t.pipelined = false)
          (fun _ _ _ h ht => (Timeline.pipelined_move ht).trans h) rfl script
      rw [hflat] at hpipelined
      cases hpipelined

/-- An open operator can be finished if and only if no signal has a name that is needed to bring
an output to the last cycle. All outputs are then exposed in that cycle. -/
theorem finishing_exposes_outputs {period : Float} (hperiod : 0 ≤ period) (handle : Handle)
    (name : String) (pipelined : Bool) (script : Script) (lib : Library)
    (hopen : ((blank handle name period pipelined).after script).isFinished = false) :
    let start := blank handle name period pipelined
    let op := start.after script
    let o := perform lib .finish op
    op.LastCycle op.exposure ∧
      ((∃ answer, o.result = .ok answer) ↔ ∀ out ∈ op.outputs, ∀ taken,
        op.Realigns op.exposure out taken → op.flow.netlist.contains taken = false) ∧
      (∀ failure, o.result = .error failure → ∃ out ∈ op.outputs, ∃ taken,
        op.Realigns op.exposure out taken ∧ op.flow.netlist.contains taken = true ∧
          failure = ⟨name, "finalize()", .duplicateSignal taken⟩) ∧
      ∀ answer, o.result = .ok answer → ∃ schedule, o.state.schedule = some schedule ∧
        schedule.depth = op.exposure ∧ schedule.outputDelays.length = op.outputs.size ∧
        ∀ (place : Nat) (out : OutputPort), op.outputs[place]? = some out →
          ∃ s, op.flow.netlist.signal? out.signal = some s ∧ s.cycle ≤ op.exposure ∧
            DeclaredIn start script out s ∧ op.LeavesBy o.state schedule place out s := by
  intro start op o
  obtain ⟨hsound, hnodup, hdeclared⟩ :=
    outputsDeclared_after handle name period pipelined script
  have hbounded : op.timeline.pipelined = true → op.timeline.Bounded :=
    bounded_after hperiod handle name pipelined script
  have hlast : op.LastCycle op.exposure := lastCycle_exposure hsound
  have hfailed : ∀ failure, o.result = .error failure → ∃ out ∈ op.outputs, ∃ taken,
      op.Realigns op.exposure out taken ∧ op.flow.netlist.contains taken = true ∧
        failure = ⟨name, "finalize()", .duplicateSignal taken⟩ := by
    have hname : op.name = name := (identity_after start script).2
    rw [← hname]
    exact fun failure => taken_of_perform_finish hsound hnodup hbounded hopen
  refine ⟨hlast, ⟨?_, fun hfree => ?_⟩, hfailed, fun answer hok => ?_⟩
  · rintro ⟨answer, hok⟩ out hout taken hrealigns
    obtain ⟨exposed, -, -, hexposed, -⟩ := exposed_of_perform_finish hsound hnodup hbounded hok
    exact hexposed.free out (Array.mem_toList_iff.mpr hout) taken hrealigns
  · cases hresult : o.result with
    | ok answer => exact ⟨answer, rfl⟩
    | error failure =>
        obtain ⟨out, hout, taken, hrealigns, htaken, -⟩ := hfailed failure hresult
        rw [hfree out hout taken hrealigns] at htaken
        cases htaken
  · obtain ⟨exposed, schedule, hschedule, hexposed, hlaid⟩ :=
      exposed_of_perform_finish hsound hnodup hbounded hok
    refine ⟨schedule, hschedule, hlaid.depth_eq, ?_, fun place out hout => ?_⟩
    · rw [hlaid.outputDelays_eq, List.length_map, ← hexposed.outputs.length_eq,
        Array.length_toList]
    · have hmem := Array.mem_of_getElem? hout
      obtain ⟨s, text, hs, hdriver⟩ := hsound.outputs out hmem
      have hcall := hdeclared out hmem s hs
      have hrole : s.role = .output := by
        obtain ⟨-, -, -, -, -, hrole, -⟩ := hcall
        exact hrole
      exact ⟨s, hs, hlast.le hmem hs, hcall, hexposed.leavesBy hlaid hout hs hrole hdriver⟩

/-- Two outputs, the first of them declared one cycle early. -/
def earlyScript (lib : Library) : Script :=
  [(lib, .output "y" (.vector 8) "0"), (lib, .setCycle 1), (lib, .output "z" (.vector 8) "0")]

/-- The early one of two outputs is realigned by one register. -/
theorem early_output_is_realigned :
    let op := (blank 0 "early" 4 false).after (earlyScript (.ofSettings {}))
    let o := perform (.ofSettings {}) .finish op
    op.isFinished = false ∧ (0 : Float) ≤ 4 ∧ (∃ answer, o.result = .ok answer) ∧
      ∃ schedule out s, o.state.schedule = some schedule ∧ schedule.depth = 1 ∧ s.cycle = 0 ∧
        s.name = "y" ∧ op.LeavesBy o.state schedule 0 out s := by
  intro op o
  obtain ⟨hopen, hexposure, ⟨out, hfirst, hsignal⟩, hy, hz, hsignals, hnames⟩ :
      op.isFinished = false ∧ op.exposure = 1 ∧
        (∃ out, op.outputs[0]? = some out ∧ out.signal = 0) ∧
        op.flow.netlist.signal? 0 =
          some ⟨⟨"y", .output, .combinational, .vector 8, 0, .expr "0"⟩, 0⟩ ∧
        op.flow.netlist.signal? 1 =
          some ⟨⟨"z", .output, .combinational, .vector 8, 1, .expr "0"⟩, 1⟩ ∧
        (∀ out ∈ op.outputs, out.signal = 0 ∨ out.signal = 1) ∧
        ∀ name, op.flow.netlist.contains name = ("z" == name || "y" == name) := by
    simp [op, earlyScript, blank, step, perform, bind, Action.bind, Action.get, Action.mapError,
      dispatch, ensureOpen, addOutput, declareHere, onFlow, onTimeline, Action.zoom, Dataflow.declare,
      Netlist.contains, Netlist.add, Netlist.size, Netlist.signal?, pure, Action.pure,
      Action.modify, isFinished, Action.ofExcept, exposure]
  have hperiod : (0 : Float) ≤ 4 := by decide
  obtain ⟨-, hiff, -, hdone⟩ := finishing_exposes_outputs hperiod 0 "early" false
    (earlyScript (.ofSettings {})) (.ofSettings {}) hopen
  have hfree : ∀ out ∈ op.outputs, ∀ taken, op.Realigns op.exposure out taken →
      op.flow.netlist.contains taken = false := by
    rintro out hout taken ⟨s, hs, hlt, k, hk, rfl⟩
    rw [hexposure] at hlt hk
    rcases hsignals out hout with hid | hid
    · rw [hid, hy] at hs
      obtain rfl := Option.some.inj hs
      rw [hnames]
      obtain rfl | rfl : k = 0 ∨ k = 1 := by
        dsimp only at hk
        omega
      all_goals decide
    · rw [hid, hz] at hs
      obtain rfl := Option.some.inj hs
      exact absurd hlt (Nat.lt_irrefl 1)
  obtain ⟨answer, hok⟩ := hiff.mpr hfree
  obtain ⟨schedule, hschedule, hdepth, -, hleaves⟩ := hdone answer hok
  obtain ⟨s, hs, -, -, hleaves⟩ := hleaves 0 out hfirst
  rw [hsignal] at hs
  obtain rfl := Option.some.inj (hy.symm.trans hs)
  exact ⟨hopen, hperiod, ⟨answer, hok⟩, schedule, out, _, hschedule, hdepth.trans hexposure, rfl,
    rfl, hleaves⟩

end Retime.Operator
