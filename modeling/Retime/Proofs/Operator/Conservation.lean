import Retime.Proofs.Dataflow.Registers
import Retime.Proofs.Operator.Completed
import Retime.Proofs.Operator.Schedule
import Retime.Proofs.Retiming.Meaning

/-! # Conservation of registers

The schedule of an operator loads every register of its dataflow once, in the cycle of the stage,
from what stands before the stage, and it loads nothing else. This holds after every script, also
if calls failed on the way.
-/

namespace Retime.Operator

open Retime.Action Dataflow

/-! ## What is to be shown -/

/-- `source` stands right before `s`, which is the stage `depth` behind `r`. -/
structure Precedes (d : Dataflow) (r : SignalId) (depth : Nat) (source s : Signal) : Prop where
  mem : d.netlist.signal? source.id = some source
  cycle_eq : s.cycle = source.cycle + 1
  width_eq : s.width = source.width
  root : depth = 1 → source.id = r ∧ source.isStage = false
  stage : depth ≠ 1 → source.driver = .stage r (depth - 1)

/-- The schedule accounts for the registers and the instances of the operator. -/
structure Conserves (op : Operator) (schedule : Schedule) : Prop where
  numbered : schedule.slices.map (·.cycle) = List.range schedule.slices.length
  signal_lt : ∀ {s}, op.flow.netlist.signal? s.id = some s → s.cycle < schedule.slices.length
  instance_lt : ∀ inst ∈ op.instances, inst.inputCycle < schedule.slices.length
  depth_lt : schedule.depth < schedule.slices.length
  stage : ∀ {s r depth}, op.flow.netlist.signal? s.id = some s → s.driver = .stage r depth →
    ∃ source, Precedes op.flow r depth source s ∧
      (schedule.dated (·.loads)).filter (·.2.target = s.id) =
        [(s.cycle, ⟨s.id, source.id, s.clocking⟩)]
  target : ∀ l ∈ schedule.loads,
    ∃ s, op.flow.netlist.signal? l.target = some s ∧ s.isStage = true
  instances : (schedule.dated (·.instances)).Perm
    (op.instances.toList.map fun inst => (inst.inputCycle, inst.id))
  instance_once : ∀ inst ∈ op.instances,
    (schedule.dated (·.instances)).filter (·.2 = inst.id) = [(inst.inputCycle, inst.id)]
  loads_length : schedule.registerCount = schedule.loads.length
  stages_length : schedule.registerCount =
    (op.flow.netlist.signals.toList.filter (·.isStage)).length

variable {op op' : Operator} {d : Dataflow} {s : Signal}

/-! ## Loads -/

/-- A stage is loaded from what stands before it. -/
theorem load?_of_stage (h : d.Sound) (hs : d.netlist.signal? s.id = some s) {r : SignalId}
    {depth : Nat} (hdriver : s.driver = .stage r depth) :
    ∃ source, load? d s = some ⟨s.id, source.id, s.clocking⟩ ∧ Precedes d r depth source s := by
  obtain ⟨k, rfl, hk⟩ := h.place hs hdriver
  obtain ⟨root, hroot, hnone, -, hs'⟩ := h.stage hk
  obtain rfl := h.lawful.id_eq hroot
  rw [hs, Option.some.injEq] at hs'
  cases k with
  | zero =>
      refine ⟨root, by simp [load?, hdriver], hroot, ?_, ?_, fun _ => ⟨rfl, hnone⟩, by simp⟩
      · rw [hs']; rfl
      · rw [hs']; rfl
  | succ k =>
      have hlt : k < (d.stages root.id).size :=
        Nat.lt_of_succ_lt (Array.getElem?_eq_some_iff.mp hk).1
      have hbefore := Array.getElem?_eq_getElem hlt
      obtain ⟨root', hroot', -, -, hsource⟩ := h.stage hbefore
      obtain rfl := Option.some.inj (hroot.symm.trans hroot')
      refine ⟨⟨_, (d.stages root.id)[k]⟩, ?_, hsource, ?_, ?_, by simp, fun _ => rfl⟩
      · simp [load?, hdriver, hbefore]
      · rw [hs']; rfl
      · rw [hs']; rfl

theorem isSome_load? (h : d.Sound) (hs : d.netlist.signal? s.id = some s) :
    (load? d s).isSome = s.isStage := by
  cases hstage : s.isStage with
  | false => rw [load?_of_not_isStage hstage]; rfl
  | true =>
      unfold Signal.isStage at hstage
      split at hstage
      next r depth hdriver =>
        obtain ⟨source, hload, -⟩ := load?_of_stage h hs hdriver
        rw [hload]
        rfl
      · cases hstage

/-! ## Schedules -/

section LaidOut

variable {depth : Nat} {exposed : List ExposedOutput} {schedule : Schedule}
  (hlaid : LaidOut op depth exposed schedule) (hsound : op.flow.Sound)
include hlaid

theorem LaidOut.length_slices : schedule.slices.length = op.lastCycle depth + 1 := by
  have hlength := congrArg List.length hlaid.cycles_eq
  rwa [List.length_map, List.length_range] at hlength

include hsound

/-- A signal is the target of its own load only. -/
theorem LaidOut.filter_dated_loads (hs : op.flow.netlist.signal? s.id = some s) :
    (schedule.dated (·.loads)).filter (·.2.target = s.id) =
      ((load? op.flow s).map (s.cycle, ·)).toList := by
  refine hsound.lawful.filter_target hs (·.2.target) (fun s' entry hentry => ?_)
    hlaid.dated_loads
  obtain ⟨l, hl, rfl⟩ := Option.map_eq_some_iff.mp hentry
  exact target_of_load? hl

theorem LaidOut.loads_length :
    schedule.loads.length = (op.flow.netlist.signals.toList.filter (·.isStage)).length := by
  rw [hlaid.loads_perm.length_eq, List.length_filterMap_eq_countP, ← List.countP_eq_length_filter]
  refine List.countP_congr fun s hs => ?_
  rw [isSome_load? hsound (hsound.lawful.mem_signals.mp hs)]

end LaidOut

/-! ## Scripts -/

/-- Instances know their places, and a schedule was laid out for the operator as it is. -/
structure Recorded (op : Operator) : Prop where
  place : ∀ {i : Nat} {inst}, op.instances[i]? = some inst → inst.id = i
  schedule : ∀ {s}, op.schedule = some s → ∃ exposed, LaidOut op s.depth exposed s

theorem Recorded.step (h : op.Recorded) (hop : op.Sound) (entry : Library × Call) :
    (op.step entry).Recorded where
  place {i inst} hi := by
    rcases placement_of_step hop entry with hsame | ⟨sub, name, wiring, inst', -, hplaced⟩
    · exact h.place (hsame ▸ hi)
    · rw [hplaced.instances, Array.getElem?_push] at hi
      split at hi
      next hlast =>
        cases hi
        exact hplaced.id_eq.trans hlast.symm
      · exact h.place hi
  schedule {schedule} hschedule := by
    rcases finished_of_step hop entry hschedule with hsame | ⟨exposed, hfinished⟩
    · rw [hsame] at hschedule ⊢
      exact h.schedule hschedule
    · have hlaid := laidOut hfinished.layOut
      exact ⟨exposed, hlaid.depth_eq.symm ▸ hlaid⟩

/-- No two instances have one id. -/
theorem Recorded.eq_of_id (h : op.Recorded) {inst inst' : Instance} (hinst : inst ∈ op.instances)
    (hinst' : inst' ∈ op.instances) (hid : inst.id = inst'.id) : inst = inst' := by
  obtain ⟨i, hi⟩ := Array.mem_iff_getElem?.mp hinst
  obtain ⟨i', hi'⟩ := Array.mem_iff_getElem?.mp hinst'
  rw [h.place hi, h.place hi'] at hid
  rw [hid, hi'] at hi
  exact (Option.some.inj hi).symm

theorem Recorded.map_id (h : op.Recorded) :
    op.instances.toList.map (·.id) = List.range op.instances.size := by
  apply List.ext_getElem
  · simp
  · intro i hi _
    rw [List.length_map, Array.length_toList] at hi
    simpa using h.place (Array.getElem?_eq_getElem hi)

/-- An instance starts in its own cycle only. -/
theorem Recorded.filter_inputs (h : op.Recorded) {inst : Instance} (hinst : inst ∈ op.instances) :
    (op.instances.toList.map fun inst => (inst.inputCycle, inst.id)).filter (·.2 = inst.id) =
      [(inst.inputCycle, inst.id)] := by
  have hnodup : (op.instances.toList.map fun inst => (inst.inputCycle, inst.id)).Nodup := by
    apply List.Nodup.of_map Prod.snd
    rw [List.map_map]
    exact h.map_id ▸ List.nodup_range
  rw [← List.perm_singleton,
    List.perm_ext_iff_of_nodup (hnodup.filter _) (List.nodup_singleton _)]
  intro entry
  simp only [List.mem_filter, List.mem_map, Array.mem_toList_iff, decide_eq_true_eq,
    List.mem_singleton]
  constructor
  · rintro ⟨⟨inst', hinst', rfl⟩, hid⟩
    rw [h.eq_of_id hinst' hinst hid]
  · rintro rfl
    exact ⟨⟨inst, hinst, rfl⟩, rfl⟩

theorem recorded_blank (handle : Handle) (name : String) (period : Float) (pipelined : Bool) :
    (blank handle name period pipelined).Recorded where
  place hi := by simp [blank] at hi
  schedule hs := by simp [blank] at hs

theorem Recorded.after (h : op.Recorded) (hop : op.Sound) (script : Script) :
    (op.after script).Sound ∧ (op.after script).Recorded := by
  induction script generalizing op with
  | nil => exact ⟨hop, h⟩
  | cons entry script ih => exact ih (h.step hop entry) (evolves_step hop entry).1

/-- Whatever was called before, the schedule of a finished operator loads its registers, each of
them once, and starts its instances. -/
theorem registers_are_conserved (handle : Handle) (name : String) (period : Float)
    (pipelined : Bool) (script : Script) {schedule : Schedule}
    (hschedule : ((blank handle name period pipelined).after script).schedule = some schedule) :
    ((blank handle name period pipelined).after script).Conserves schedule := by
  obtain ⟨hop, hrecorded⟩ := (recorded_blank handle name period pipelined).after
    (sound_blank handle name period pipelined) script
  generalize (blank handle name period pipelined).after script = op at *
  obtain ⟨exposed, hlaid⟩ := hrecorded.schedule hschedule
  have hlength := hlaid.length_slices
  have hdated := hlaid.dated_instances
  have hcount := hlaid.registerCount_eq.trans hop.flow.registerCount_eq_length
  constructor
  · rw [hlength, hlaid.cycles_eq]
  · intro s hs
    rw [hlength]
    exact Nat.lt_succ_of_le (cycle_le_lastCycle (hop.flow.lawful.mem_signals.mpr hs))
  · intro inst hinst
    rw [hlength]
    exact Nat.lt_succ_of_le (inputCycle_le_lastCycle (Array.mem_toList_iff.mpr hinst))
  · rw [hlength]
    exact Nat.lt_succ_of_le depth_le_lastCycle
  · intro s r depth hs hdriver
    obtain ⟨source, hload, hprecedes⟩ := load?_of_stage hop.flow hs hdriver
    refine ⟨source, hprecedes, ?_⟩
    rw [hlaid.filter_dated_loads hop.flow hs, hload]
    rfl
  · intro l hl
    obtain ⟨s, hs, hload⟩ := List.mem_filterMap.mp (hlaid.loads_perm.mem_iff.mp hl)
    have hs' := hop.flow.lawful.mem_signals.mp hs
    refine ⟨s, (target_of_load? hload).symm ▸ hs', ?_⟩
    rw [← isSome_load? hop.flow hs', hload]
    rfl
  · exact hdated
  · intro inst hinst
    have hperm := hdated.filter (·.2 = inst.id)
    rw [hrecorded.filter_inputs hinst] at hperm
    exact List.perm_singleton.mp hperm
  · rw [hcount, hlaid.loads_length hop.flow]
  · exact hcount

/-- The delay by one clock has one register. -/
theorem delay_conserves_one_register :
    let op := (blank 0 "delay" 4 false).after (delayScript (.ofSettings {}) (.vector 8))
    ∃ schedule, op.schedule = some schedule ∧ op.Conserves schedule ∧ schedule.registerCount = 1 ∧
      schedule.loads.length = 1 := by
  obtain ⟨-, -, schedule, hschedule, hdelay⟩ := runs_delayScript (.ofSettings {}) (.vector 8)
  have hconserves := registers_are_conserved 0 "delay" 4 false
    (delayScript (.ofSettings {}) (.vector 8)) hschedule
  have hcount : schedule.registerCount = 1 := by
    rw [hconserves.stages_length, hdelay.signals]
    decide
  exact ⟨schedule, hschedule, hconserves, hcount, hconserves.loads_length ▸ hcount⟩

end Retime.Operator
