import Retime.Proofs.Operator.Completed
import Retime.Proofs.Operator.Faults
import Retime.Proofs.Timeline.Arrivals

/-! # Arrivals at an instance

All that an instantiation does to the timeline of the parent is that the connected outputs
arrive, each with its delay, in the cycle in which they are valid. On a timeline of a finite
period that all these delays fit, none of them is refused.
-/

namespace Retime

/-- A fault that is not about a delay. -/
def Fault.Untimed (e : Fault) : Prop :=
  ∀ delay limit, e ≠ .unreachableTiming delay limit

/-- The delays of the outputs that are connected. -/
def Wiring.arrivals (wiring : Wiring) (ports : List Port) : List Float :=
  (ports.filter fun p => (wiring.outputs.lookup p.name).isSome).map (·.delay)

theorem Fault.OfDescription.untimed {e : Fault} (h : e.OfDescription) : e.Untimed := by
  cases h with
  | signals hsignals => cases hsignals <;> exact fun _ _ => nofun
  | _ => exact fun _ _ => nofun

namespace Wiring

theorem arrivals_append (wiring : Wiring) (ports ports' : List Port) :
    wiring.arrivals (ports ++ ports') = wiring.arrivals ports ++ wiring.arrivals ports' := by
  simp [arrivals]

theorem mem_arrivals {wiring : Wiring} {ports : List Port} {p : Port} (hp : p ∈ ports)
    {name : String} (hbound : wiring.outputs.lookup p.name = some name) :
    p.delay ∈ wiring.arrivals ports := by
  apply List.mem_map_of_mem
  simp [List.mem_filter, hp, hbound]

end Wiring

namespace Operator

open Retime.Action Timeline

variable {op : Operator} {lib : Library} {wiring : Wiring}

theorem interface_of_subInterface {sub : Handle} {itf : Interface}
    (h : op.subInterface lib sub = .ok itf) : lib.interface sub = .ok itf := by
  unfold subInterface at h
  split at h
  · cases h
  · exact h

/-! ## Connecting the ports -/

/-- A connected output arrives, an open one does not. -/
theorem wp_connectOutput_arrivals (wiring : Wiring) (id cycle : Nat) (p : Port) :
    (connectOutput wiring id cycle p).wp
      (fun _ op' => op.timeline.arriveAll cycle (wiring.arrivals [p]) = .ok op'.timeline)
      (fun e _ => op.timeline.period.isFinite → op.timeline.InPeriod p.delay → e.Untimed)
      op := by
  unfold connectOutput
  split
  next hopen => simp [Wiring.arrivals, hopen]
  next name hbound =>
    have harrivals : wiring.arrivals [p] = [p.delay] := by simp [Wiring.arrivals, hbound]
    rw [wp_bind, wp_onFlow, Dataflow.wp_declare]
    refine ⟨fun _ _ _ _ _ => nofun, fun _ => ?_⟩
    rw [wp_bind, wp_onTimeline]
    constructor
    · intro t ht
      rw [wp_pure, harrivals, arriveAll_singleton]
      exact ht
    · intro e he hperiod hdelay
      obtain ⟨t, ht⟩ := arrive_of_inPeriod hperiod hdelay cycle
      rw [ht] at he
      cases he

theorem period_of_arriveAll {t t' : Timeline} {cycle : Nat} {delays : List Float}
    (ht : t.arriveAll cycle delays = .ok t') : t'.period = t.period :=
  keeps_arriveAll (P := fun t' => t'.period = t.period)
    (fun _ _ _ h hmove => (period_move hmove).trans h) rfl ht

theorem wp_connectOutputs_arrivals (wiring : Wiring) (id cycle : Nat) (ports : List Port) :
    (forEach (connectOutput wiring id cycle) ports).wp
      (fun _ op' => op.timeline.arriveAll cycle (wiring.arrivals ports) = .ok op'.timeline)
      (fun e _ => op.timeline.period.isFinite →
        (∀ p ∈ ports, op.timeline.InPeriod p.delay) → e.Untimed) op := by
  refine wp_forEach (fun done _ (op' : Operator) =>
    op.timeline.arriveAll cycle (wiring.arrivals done) = .ok op'.timeline) rfl ?_
  intro done p rest entries op' hports hdone
  have hperiod : op'.timeline.period = op.timeline.period := period_of_arriveAll hdone
  apply (wp_connectOutput_arrivals wiring id cycle p).mono
  · intro entry op'' hp
    rw [Wiring.arrivals_append, arriveAll_append, hdone]
    exact hp
  · intro e _ he hfinite hdelays
    have hp := hdelays p (by simp [← hports])
    rw [InPeriod, hperiod] at he
    exact he hfinite hp

/-! ## The instance -/

/-- What an instantiation does to the timeline, and what it can stop with. -/
theorem wp_instantiate_arrivals (op : Operator) (lib : Library) (sub : Handle) (name : String)
    (wiring : Wiring) : (instantiate lib sub name wiring).wp
      (fun _ op' => ∃ itf, lib.interface sub = .ok itf ∧ op.timeline.arriveAll
        (op.timeline.cycle + itf.depth) (wiring.arrivals itf.outputs) = .ok op'.timeline)
      (fun e _ => op.timeline.period.isFinite →
        (∀ itf, lib.interface sub = .ok itf → ∀ p ∈ itf.outputs, op.timeline.InPeriod p.delay) →
          e.Untimed) op := by
  refine wp_instantiate_of (fun itf cycle hadmits => ?_) fun e he _ _ =>
    (ofDescription_admission he).untimed
  have hsub := interface_of_subInterface hadmits.interface
  obtain rfl := laterCycle_ok hadmits.later
  -- the inputs leave the timeline alone
  have hinputs : (forEach (connectInput itf wiring op.timeline.cycle) itf.inputs).Keeps
      fun op' => op'.timeline = op.timeline :=
    keeps_forEach fun p _ => keeps_connectInput ⟨fun _ h => h, fun _ h => h⟩ itf wiring _ p
  have hfaults : (forEach (connectInput itf wiring op.timeline.cycle) itf.inputs).Faults
      Fault.OfDescription := faults_forEach fun p _ => faults_connectInput itf _ p
  apply ((hinputs op rfl).and (hfaults op)).mono
  · rintro inputs op₁ ⟨hsame, -⟩
    apply (wp_connectOutputs_arrivals wiring _ _ itf.outputs).mono
    · exact fun outputs op₂ harrive => ⟨itf, hsub, hsame ▸ harrive⟩
    · intro e _ he hperiod hdelays
      rw [hsame] at he
      exact he hperiod (hdelays itf hsub)
  · exact fun e _ he _ _ => he.2.untimed

/-- After an instantiation that succeeds, the connected outputs have arrived. -/
theorem arriveAll_of_succeeds {sub : Handle} {name : String}
    (h : op.Succeeds (lib, .instantiate sub name wiring)) :
    ∃ itf, lib.interface sub = .ok itf ∧ op.timeline.arriveAll (op.timeline.cycle + itf.depth)
      (wiring.arrivals itf.outputs) = .ok (op.step (lib, .instantiate sub name wiring)).timeline := by
  obtain ⟨-, hstep, answer, hanswer⟩ := execute_of_succeeds h
  rw [hstep]
  have hwp : (execute lib (.instantiate sub name wiring)).wp (fun _ op' => ∃ itf,
      lib.interface sub = .ok itf ∧ op.timeline.arriveAll (op.timeline.cycle + itf.depth)
        (wiring.arrivals itf.outputs) = .ok op'.timeline) (fun _ _ => True) op :=
    wp_bind.mpr ((wp_instantiate_arrivals op lib sub name wiring).mono (fun _ _ hop' => hop')
      fun _ _ _ => trivial)
  exact hwp.of_ok hanswer

/-- An instantiation that fails does not fail for a delay, if all delays fit the period. -/
theorem untimed_of_instantiate {sub : Handle} {name : String} {failure : Failure}
    (h : (perform lib (.instantiate sub name wiring) op).result = .error failure)
    (hperiod : op.timeline.period.isFinite) (hdelays : ∀ itf, lib.interface sub = .ok itf →
      ∀ p ∈ itf.outputs, op.timeline.InPeriod p.delay) : failure.fault.Untimed := by
  cases hopen : op.isFinished with
  | true =>
      rw [(perform_of_closed hopen).1] at h
      cases h
      exact fun _ _ => nofun
  | false =>
      have hwp : (execute lib (.instantiate sub name wiring)).wp (fun _ _ => True)
          (fun e _ => e.Untimed) op :=
        wp_bind.mpr ((wp_instantiate_arrivals op lib sub name wiring).mono
          (fun _ _ _ => trivial) fun _ _ he => he hperiod hdelays)
      exact hwp.of_error (execute_of_failed hopen h)

end Operator

end Retime
