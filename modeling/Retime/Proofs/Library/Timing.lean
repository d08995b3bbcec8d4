import Retime.Proofs.Library.Latency
import Retime.Proofs.Operator.Arrivals

/-! # Timing of composed operators

The bound on the paths of one operator carries over to those that are composed of it. Its
outputs leave within the period, either as they were declared or from a register; so they
can arrive in any cycle of a parent, and every output that the parent declares in that cycle
from then on accounts for them.
-/

namespace Retime

open Retime.Action

namespace Operator

variable {op op' : Operator} {period : Float}

/-! ## Outputs within the period -/

/-- The timeline and the delays of all outputs fit the period. -/
structure Timed (op : Operator) (period : Float) : Prop where
  sound : op.Sound
  timeline : op.timeline.Budgeted
  period_eq : op.timeline.period = period
  outputs : ∀ out ∈ op.outputs, 0 ≤ out.delay ∧ out.delay ≤ period
  exported : ∀ {schedule}, op.schedule = some schedule →
    ∀ delay ∈ schedule.outputDelays, 0 ≤ delay ∧ delay ≤ period

theorem timed_blank (handle : Handle) (name : String) (hperiod : 0 ≤ period) :
    (blank handle name period true).Timed period where
  sound := sound_blank handle name period true
  timeline := Timeline.budgeted_start hperiod
  period_eq := rfl
  outputs out hout := by simp [blank] at hout
  exported hschedule := by simp [blank] at hschedule

/-- The critical path is a delay that fits the period. -/
theorem Timed.criticalPath (h : op.Timed period) :
    0 ≤ op.timeline.criticalPath ∧ op.timeline.criticalPath ≤ period :=
  ⟨Binary64.le_trans (h.timeline.floor op.timeline.cycle).1 h.timeline.floor_le,
    h.period_eq ▸ h.timeline.path_le⟩

/-- Outputs are exposed with the delays they were declared with, or without any. -/
theorem Finished.exported {schedule : Schedule} {exposed : List ExposedOutput}
    (h : Finished op op' schedule exposed) (hop : op.Timed period) :
    ∀ delay ∈ schedule.outputDelays, 0 ≤ delay ∧ delay ≤ period := by
  intro delay hdelay
  rw [(laidOut h.layOut).outputDelays_eq] at hdelay
  obtain ⟨e, he, rfl⟩ := List.mem_map.mp hdelay
  obtain ⟨out, hout, hexposes⟩ := exists_left_of_forall₂ h.exposes he
  cases hexposes with
  | direct s mem cycle_eq => exact hop.outputs out (Array.mem_toList_iff.mp hout)
  | realigned s base last mem lt held_mem carries =>
      exact ⟨Timeline.zero_le_zero, Binary64.le_trans hop.criticalPath.1 hop.criticalPath.2⟩

/-- Every call, whether it succeeds or fails, keeps all delays within the period. -/
theorem Timed.step (h : op.Timed period) (entry : Library × Call) :
    (op.step entry).Timed period where
  sound := (evolves_step h.sound entry).1
  timeline := keeps_step (keeps_execute_timeline fun _ _ _ h ht => Timeline.budgeted_move h ht)
    h.timeline entry
  period_eq := keeps_step (P := fun op => op.timeline.period = period)
    (keeps_execute_timeline fun _ _ _ h ht => (Timeline.period_move ht).trans h) h.period_eq entry
  outputs out hout := by
    rcases outputs_step h.sound entry with hsame | ⟨s, -, -, hpush⟩
    · exact h.outputs out (hsame ▸ hout)
    · rw [hpush] at hout
      rcases Array.mem_push.mp hout with hold | rfl
      · exact h.outputs out hold
      · exact h.criticalPath
  exported {schedule} hschedule := by
    rcases finished_of_step h.sound entry hschedule with hsame | ⟨exposed, hfinished⟩
    · exact h.exported (hsame ▸ hschedule)
    · exact hfinished.exported h

/-- The delays that an interface shows are those of the schedule. -/
theorem Timed.interface (h : op.Timed period) {itf : Interface} (hitf : op.interface? = some itf)
    {p : Port} (hp : p ∈ itf.outputs) : 0 ≤ p.delay ∧ p.delay ≤ period := by
  obtain ⟨schedule, hschedule, rfl⟩ := Option.map_eq_some_iff.mp hitf
  obtain ⟨⟨out, delay⟩, hzip, hport⟩ := List.mem_filterMap.mp hp
  obtain ⟨s, -, rfl⟩ := Option.map_eq_some_iff.mp hport
  exact h.exported hschedule delay (List.of_mem_zip hzip).2

/-! ## What is delivered stays accounted for -/

/-- The signal `s` arrives with delay `e`, for which all outputs of its cycle account that
were declared after the first `count`. -/
structure Delivered (op : Operator) (s : Signal) (e : Float) (count : Nat) : Prop where
  sound : op.Sound
  timeline : op.timeline.Budgeted
  mem : op.flow.netlist.signal? s.id = some s
  floor : e ≤ op.timeline.floor s.cycle
  outputs : ∀ (i : Nat) (out : OutputPort), count ≤ i → op.outputs[i]? = some out →
    ∃ t, op.flow.netlist.signal? out.signal = some t ∧ (t.cycle = s.cycle → e ≤ out.delay)

variable {s : Signal} {e : Float} {count : Nat}

theorem Delivered.criticalPath (h : op.Delivered s e count)
    (hcycle : op.timeline.cycle = s.cycle) : e ≤ op.timeline.criticalPath :=
  Binary64.le_trans (hcycle ▸ h.floor) h.timeline.floor_le

theorem Delivered.step (h : op.Delivered s e count) (entry : Library × Call) :
    (op.step entry).Delivered s e count := by
  obtain ⟨hsound, hevolves⟩ := evolves_step h.sound entry
  have hext := (hevolves.extends h.sound.flow).netlist
  have htimeline := keeps_step (keeps_execute_timeline fun (t : Timeline) m t'
      (ht : t.Budgeted ∧ e ≤ t.floor s.cycle) hmove =>
    ⟨Timeline.budgeted_move ht.1 hmove, Timeline.le_floor_of_move hmove ht.2⟩)
    ⟨h.timeline, h.floor⟩ entry
  refine ⟨hsound, htimeline.1, hext _ _ h.mem, htimeline.2, fun i out hcount hout => ?_⟩
  have hold : op.outputs[i]? = some out → ∃ t, (op.step entry).flow.netlist.signal? out.signal =
      some t ∧ (t.cycle = s.cycle → e ≤ out.delay) := by
    intro hbefore
    obtain ⟨t, ht, hdelay⟩ := h.outputs i out hcount hbefore
    exact ⟨t, hext _ _ ht, hdelay⟩
  rcases outputs_step h.sound entry with hsame | ⟨t, ht, hcycle, hpush⟩
  · exact hold (hsame ▸ hout)
  · rw [hpush, Array.getElem?_push] at hout
    split at hout
    · cases hout
      exact ⟨t, ht, fun hvalid => h.criticalPath (hcycle.symm.trans hvalid)⟩
    · exact hold hout

theorem Delivered.after (h : op.Delivered s e count) (script : Script) :
    (op.after script).Delivered s e count := by
  induction script generalizing op with
  | nil => exact h
  | cons entry script ih => exact ih (h.step entry)

/-- A new instance delivers each of its connected outputs with the delay that is exported. -/
theorem Timed.delivered (h : op.Timed period) {lib : Library} {sub : Handle} {name : String}
    {wiring : Wiring} (hsucceeds : op.Succeeds (lib, .instantiate sub name wiring)) :
    ∃ itf, lib.interface sub = .ok itf ∧ ∀ p ∈ itf.outputs, ∀ b,
      wiring.outputs.lookup p.name = some b → ∃ s, s.name = b ∧
        let placed := op.step (lib, .instantiate sub name wiring)
        placed.Delivered s p.delay placed.outputs.size := by
  obtain ⟨itf, hitf, harrive⟩ := arriveAll_of_succeeds hsucceeds
  refine ⟨itf, hitf, fun p hp b hbound => ?_⟩
  have hstep := h.step (lib, .instantiate sub name wiring)
  cases performed_of_succeeds h.sound hsucceeds with
  | timeline moves => cases moves
  | instantiate sub name wiring inst placement =>
      have hsame : itf = inst.interface :=
        Except.ok.inj (hitf.symm.trans (interface_of_subInterface placement.interface))
      obtain ⟨entry, -, hyields⟩ := exists_right_of_forall₂ placement.yields (hsame ▸ hp)
      cases hyields with
      | unbound hopen => simp [hopen] at hbound
      | signal s bound mem role driver cycle_eq width =>
          rw [bound] at hbound
          refine ⟨s, Option.some.inj hbound, hstep.sound, hstep.timeline, mem, ?_, ?_⟩
          · rw [cycle_eq, placement.outputCycle_eq, placement.inputCycle_eq, ← hsame]
            exact Timeline.le_floor_of_arriveAll (h.timeline.floor _).1 harrive _
              (Wiring.mem_arrivals hp (bound.trans hbound))
          · intro i out hcount hout
            exact absurd (Array.getElem?_eq_some_iff.mp hout).1 (Nat.not_lt_of_le hcount)

end Operator

/-! ## Timed libraries -/

namespace Library

/-- All committed operators fit the period of a pipelined device. -/
structure Timed (lib : Library) (device : Device) : Prop where
  device_eq : lib.device = device
  operators : ∀ {h op}, lib.operator? h = some op → op.Timed device.period

variable {lib : Library} {device : Device}

theorem invariant_timed (hpipelined : device.pipelined = true) (hperiod : 0 ≤ device.period) :
    Invariant (·.Timed device) fun _ op => op.Timed device.period where
  reserve hlib hres := by
    refine ⟨⟨hres.device.trans hlib.device_eq, fun hop => ?_⟩, ?_⟩
    · rw [hres.operator?] at hop
      exact hlib.operators hop
    · rw [hres.operator, hlib.device_eq, hpipelined]
      exact Operator.timed_blank _ _ hperiod
  extend hop _ := hop
  step c _ hop := hop.step _
  commit hlib hop hcom := by
    refine ⟨hcom.device.trans hlib.device_eq, fun hop' => ?_⟩
    rw [hcom.operator?] at hop'
    split at hop'
    · exact Option.some.inj hop' ▸ hop
    · exact hlib.operators hop'

theorem Timed.interface (hlib : lib.Timed device) {h : Handle} {itf : Interface}
    (hitf : lib.interface h = .ok itf) {p : Port} (hp : p ∈ itf.outputs) :
    0 ≤ p.delay ∧ p.delay ≤ device.period := by
  obtain ⟨op, hop, hshown⟩ := interface_eq_ok.mp hitf
  exact (hlib.operators hop).interface hshown hp

end Library

/-! ## A copy of an inverter -/

namespace Timeline

/-- A pipelined timeline with a period of four nanoseconds on which one was spent. -/
def spent : Timeline :=
  ({ period := 4, pipelined := true } : Timeline).reach (0 + 1)

theorem accrue_one :
    ({ period := 4, pipelined := true } : Timeline).accrue 1 = .ok (.fitted, spent) := by
  have hadmits : ({ period := 4, pipelined := true } : Timeline).Admits 1 := by decide
  have hfits : ¬ (4 : Float) < 0 + 1 := by decide
  unfold accrue
  rw [if_neg (not_not.mpr hadmits), if_neg fun h => hfits h.2]
  rfl

theorem criticalPath_spent : spent.criticalPath = 1 := by
  show (0 : Float) + 1 = 1
  decide

theorem budgeted_spent : spent.Budgeted :=
  budgeted_accrue (budgeted_start (by decide)) accrue_one

end Timeline

namespace Operator

/-- Inverts a byte, which takes one nanosecond. -/
def inverterCalls : List Call :=
  [.input "X" (.vector 8), .accrue 1, .output "R" (.vector 8) "~X", .finish]

/-- A byte that is worked on for one nanosecond, which ends with the signal `x`. -/
def chainCalls : List Call :=
  [.input "a" (.vector 8), .accrue 1]

/-- The signal at the end of that work. -/
def chainEnd : Call :=
  .declare "x" (.vector 8) .combinational "~a"

/-- A copy of the inverter that takes `x`. -/
def chainCopy : Call :=
  .instantiate 0 "u" ((Wiring.input {} "X" "x").output "R" "y")

def inverter (lib : Library) : Operator :=
  (blank 0 "inverter" 4 true).after (inverterCalls.map (lib, ·))

def chain (lib : Library) : Operator :=
  (blank 1 "chain" 4 true).after (chainCalls.map (lib, ·))

def inverterInterface (sequential : Bool) : Interface where
  name := "inverter"
  inputs := [⟨"X", .vector 8, 0⟩]
  outputs := [⟨"R", .vector 8, 1⟩]
  depth := 0
  sequential

structure IsInverter (op : Operator) : Prop where
  finished : op.isFinished = true
  interface : ∃ sequential, op.interface? = some (inverterInterface sequential)

/-- The inverter before it is finished. -/
def inverterBody : Operator :=
  { blank 0 "inverter" 4 true with
    timeline := .spent
    flow.netlist := (({} : Netlist).add ⟨"X", .input, .combinational, .vector 8, 0, .port⟩).add
      ⟨"R", .output, .combinational, .vector 8, 0, .expr "~X"⟩
    inputs := #[0]
    outputs := #[⟨1, 1⟩] }

theorem leads_inverterCalls (lib : Library) : ∃ schedule,
    LaidOut inverterBody 0 [⟨1, none⟩] schedule ∧
      (blank 0 "inverter" 4 true).Leads (inverterCalls.map (lib, ·))
        { inverterBody with schedule := some schedule } := by
  obtain ⟨schedule, hlaid, hfinish⟩ : ∃ schedule, _ ∧ inverterBody.Leads [(lib, .finish)] _ :=
    leads_finish rfl (by decide) fun _ => Timeline.budgeted_spent.toBounded
  refine ⟨schedule, hlaid, ?_⟩
  refine Leads.cons (leads_input rfl rfl (by simp [blank, Netlist.contains])) ?_
  refine Leads.cons (leads_accrue rfl Timeline.accrue_one) ?_
  refine Leads.cons (leads_output rfl rfl ?_ Timeline.criticalPath_spent) hfinish
  simp [blank, Netlist.contains, Netlist.add]

theorem isInverter_inverter (lib : Library) : (inverter lib).IsInverter := by
  obtain ⟨schedule, hlaid, -, hinverter⟩ := leads_inverterCalls lib
  rw [inverter, hinverter]
  refine ⟨rfl, schedule.sequential, ?_⟩
  simp only [interface?, Option.map_some, hlaid.depth_eq, hlaid.outputDelays_eq]
  rfl

/-- The signal `x` can be declared and inverted, after a path of one nanosecond. -/
structure IsChain (op : Operator) (lib : Library) : Prop where
  cycle : op.timeline.cycle = 0
  criticalPath : op.timeline.criticalPath = 1
  declares : op.Succeeds (lib, chainEnd)
  timeline : (op.step (lib, chainEnd)).timeline = op.timeline
  copies : (op.step (lib, chainEnd)).Succeeds (lib, chainCopy)

/-- The signal that `chainEnd` declares. -/
def chainSignal : Declaration :=
  ⟨"x", .internal, .combinational, .vector 8, 0, .expr "~a"⟩

def chainBody : Operator :=
  { blank 1 "chain" 4 true with
    timeline := .spent
    flow.netlist := ({} : Netlist).add ⟨"a", .input, .combinational, .vector 8, 0, .port⟩
    inputs := #[0] }

theorem leads_chainCalls (lib : Library) :
    (blank 1 "chain" 4 true).Leads (chainCalls.map (lib, ·)) chainBody :=
  Leads.cons (leads_input rfl rfl (by simp [blank, Netlist.contains]))
    (leads_accrue rfl Timeline.accrue_one)

theorem leads_chainEnd (lib : Library) : chainBody.Leads [(lib, chainEnd)]
    { chainBody with flow.netlist := chainBody.flow.netlist.add chainSignal } :=
  leads_declare rfl rfl (by simp [chainBody, Netlist.contains, Netlist.add])

theorem isChain_chain {lib : Library} {sequential : Bool}
    (hitf : lib.interface 0 = .ok (inverterInterface sequential)) : (chain lib).IsChain lib := by
  have hchain : chain lib = chainBody := (leads_chainCalls lib).2
  let declared : Operator :=
    { chainBody with flow.netlist := chainBody.flow.netlist.add chainSignal }
  have hdeclared : chainBody.Leads [(lib, chainEnd)] declared := leads_chainEnd lib
  have hadmits : declared.Admits lib 0 "u" ((Wiring.input {} "X" "x").output "R" "y")
      (inverterInterface sequential) 0 := ⟨by simp [declared, chainBody, blank], hitf, rfl, rfl⟩
  have hfind : declared.flow.netlist.find "x" = .ok ⟨chainSignal, 1⟩ :=
    Netlist.find_add_self chainSignal
  have hread := returns_connectInput declared (inverterInterface sequential)
    ((Wiring.input {} "X" "x").output "R" "y") ⟨"X", .vector 8, 0⟩ rfl hfind (by decide) rfl
    (Dataflow.returns_resolve_here rfl _)
  have hfits : Timeline.spent.InPeriod 1 := ⟨by decide, by decide⟩
  obtain ⟨t, ht⟩ := Timeline.arrive_of_inPeriod (by decide) hfits 0
  have hdrive := returns_connectOutput { declared with consumed := declared.consumed.insert 1 }
    ((Wiring.input {} "X" "x").output "R" "y") 0 0 ⟨"R", .vector 8, 1⟩ rfl
    (by simp [declared, chainBody, chainSignal, Netlist.contains, Netlist.add]) ht
  have hcopied : declared.Leads [(lib, chainCopy)] _ :=
    leads_instantiate rfl hadmits (hread.forEach_cons (returns_forEach_nil _))
      (hdrive.forEach_cons (returns_forEach_nil _))
  rw [hchain]
  exact
    { cycle := rfl
      criticalPath := Timeline.criticalPath_spent
      declares := hdeclared.succeeds
      timeline := by rw [hdeclared.step_eq]
      copies := by
        rw [hdeclared.step_eq]
        exact hcopied.succeeds }

end Operator

namespace Workshop

/-- Commits the inverter and then makes calls on another operator. -/
def inverterSteps (calls : List Call) : List Step :=
  .create "inverter" :: (Operator.inverterCalls.map (.call 0) ++ .commit 0 :: .create "chain" ::
    calls.map (.call 0))

theorem after_inverterSteps (calls : List Call) :
    let settings : Settings := { frequencyMhz := 250 }
    ∃ lib sequential, lib.interface 0 = .ok (Operator.inverterInterface sequential) ∧
      (empty settings (.ofSettings settings)).after (inverterSteps calls) =
        ⟨lib, [(Operator.blank 1 "chain" 4 true).after (calls.map (lib, ·))]⟩ := by
  intro settings
  have hperiod : (Device.ofSettings settings).period = 4 := period_of_250MHz
  have hbuilt : ∀ lib, Operator.inverter lib =
      (Operator.blank 0 "inverter" (Device.ofSettings settings).period true).after
        (Operator.inverterCalls.map (lib, ·)) := by
    intro lib
    rw [hperiod]
    rfl
  obtain ⟨lib, before, hcommitted, hw⟩ := after_pair settings (.ofSettings settings)
    (by decide : "inverter" ≠ "chain") Operator.inverterCalls calls hbuilt
    fun lib => (Operator.isInverter_inverter lib).finished
  obtain ⟨sequential, hitf⟩ := (Operator.isInverter_inverter before).interface
  rw [hperiod] at hw
  exact ⟨lib, sequential, Library.interface_eq_ok.mpr ⟨_, hcommitted, hitf⟩, hw⟩

end Workshop

/-! ## What is composed -/

namespace Workshop

/-- Whatever is built for a pipelined device with a finite period, all delays that interfaces
show lie within the period, so an instantiation never fails for a delay. After one that
succeeds, whatever is called later, each connected output is a signal whose delay is below
the floor of its cycle, below the critical path whenever that cycle is the current one, and
below the delay of every output that is declared there from then on. -/
theorem composed_timing (settings : Settings) {device : Device}
    (hpipelined : device.pipelined = true) (hperiod : 0 ≤ device.period)
    (hfinite : device.period.isFinite) (steps : List Step) :
    let w := (empty settings device).after steps
    (∀ h itf, w.library.interface h = .ok itf →
      ∀ p ∈ itf.outputs, 0 ≤ p.delay ∧ p.delay ≤ device.period) ∧
    ∀ op ∈ w.bench, ∀ (sub : Handle) (name : String) (wiring : Wiring),
      let call := Call.instantiate sub name wiring
      (∀ failure, (Operator.perform w.library call op).result = .error failure →
        ∀ delay limit, failure.fault ≠ .unreachableTiming delay limit) ∧
      (op.Succeeds (w.library, call) → ∃ itf, w.library.interface sub = .ok itf ∧
        ∀ p ∈ itf.outputs, ∀ b, wiring.outputs.lookup p.name = some b →
          ∃ s : Signal, ∀ script : Script,
            let placed := op.step (w.library, call)
            let later := placed.after script
            later.flow.netlist.find b = .ok s ∧
            p.delay ≤ later.timeline.floor s.cycle ∧
            (later.timeline.cycle = s.cycle → p.delay ≤ later.timeline.criticalPath) ∧
            ∀ (i : Nat) (out : OutputPort), placed.outputs.size ≤ i →
              later.outputs[i]? = some out → ∃ t, later.flow.netlist.signal? out.signal = some t ∧
                (t.cycle = s.cycle → p.delay ≤ out.delay)) := by
  intro w
  obtain ⟨hlibrary, hbench⟩ : w.library.Timed device ∧ ∀ op ∈ w.bench, op.Timed device.period :=
    invariant_after (Library.invariant_timed hpipelined hperiod)
      ⟨rfl, fun hop => by simp [empty, Library.operator?] at hop⟩ (fun _ hop => by cases hop) steps
  refine ⟨fun h itf hitf p hp => hlibrary.interface hitf hp, fun op hop sub name wiring => ⟨?_, ?_⟩⟩
  · intro failure hfailure
    have htimed := hbench op hop
    refine Operator.untimed_of_instantiate hfailure (htimed.period_eq ▸ hfinite) ?_
    intro itf hitf p hp
    rw [Timeline.InPeriod, htimed.period_eq]
    exact hlibrary.interface hitf hp
  · intro hsucceeds
    obtain ⟨itf, hitf, hdelivered⟩ := (hbench op hop).delivered hsucceeds
    refine ⟨itf, hitf, fun p hp b hbound => ?_⟩
    obtain ⟨s, hname, hplaced⟩ := hdelivered p hp b hbound
    refine ⟨s, fun script => ?_⟩
    have hlater := hplaced.after script
    exact ⟨hlater.sound.flow.lawful.find_ok.mpr ⟨hlater.mem, hname⟩, hlater.floor,
      hlater.criticalPath, hlater.outputs⟩

/-- At 250 MHz the period is four nanoseconds, and no exported delay is longer. A copy of the
inverter delivers its output after one nanosecond, for which all that comes later accounts. -/
theorem composed_timing_of_250MHz :
    let settings : Settings := { frequencyMhz := 250 }
    let device : Device := .ofSettings settings
    (device.pipelined = true ∧ 0 ≤ device.period ∧ device.period.isFinite) ∧
      (∀ steps h itf, ((empty settings device).after steps).library.interface h = .ok itf →
        ∀ p ∈ itf.outputs, 0 ≤ p.delay ∧ p.delay ≤ 4) ∧
      let w := (empty settings device).after
        (inverterSteps (Operator.chainCalls ++ [Operator.chainEnd]))
      ∃ op ∈ w.bench, op.Succeeds (w.library, Operator.chainCopy) ∧
        ∃ s : Signal, ∀ script : Script,
          let later := (op.step (w.library, Operator.chainCopy)).after script
          later.flow.netlist.find "y" = .ok s ∧ 1 ≤ later.timeline.floor s.cycle ∧
            (later.timeline.cycle = s.cycle → 1 ≤ later.timeline.criticalPath) := by
  intro settings device
  have hfour : device.period = 4 := period_of_250MHz
  have hperiod : 0 ≤ device.period := hfour ▸ (by decide : (0 : Float) ≤ 4)
  have hfinite : device.period.isFinite = true := hfour ▸ (by decide : (4 : Float).isFinite = true)
  refine ⟨⟨rfl, hperiod, hfinite⟩, fun steps h itf hitf p hp => ?_, ?_⟩
  · rw [← hfour]
    exact (composed_timing settings rfl hperiod hfinite steps).1 h itf hitf p hp
  · obtain ⟨lib, sequential, hitf, hw⟩ :=
      after_inverterSteps (Operator.chainCalls ++ [Operator.chainEnd])
    have htiming := (composed_timing settings rfl hperiod hfinite
      (inverterSteps (Operator.chainCalls ++ [Operator.chainEnd]))).2
    rw [show (empty settings device).after _ = _ from hw] at htiming ⊢
    have hcopies := (Operator.isChain_chain hitf).copies
    refine ⟨_, List.mem_singleton_self _, hcopies, ?_⟩
    obtain ⟨itf, hitf', hdelivers⟩ := (htiming _ (List.mem_singleton_self _) 0 "u" _).2 hcopies
    obtain rfl := Except.ok.inj (hitf.symm.trans hitf')
    obtain ⟨s, hlater⟩ := hdelivers ⟨"R", .vector 8, 1⟩ (by simp [Operator.inverterInterface])
      "y" rfl
    refine ⟨s, fun script => ?_⟩
    obtain ⟨hfind, hfloor, hpath, -⟩ := hlater script
    exact ⟨hfind, hfloor, hpath⟩

end Workshop

end Retime
