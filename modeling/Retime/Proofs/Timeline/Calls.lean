import Retime.Proofs.Dataflow.Basic
import Retime.Proofs.Operator.Frame

/-! # Timelines of operators

Calls change the timeline of an operator by moves alone, so what every move keeps holds
of an operator after every script. On a pipelined target this is the budget, and the
check for it at the end of a description never fails.
-/

namespace Retime.Operator

open Retime.Action Timeline

/-! ## Calls move along the timeline -/

section Moves

variable {P : Timeline → Prop}

/-- What is said of the timeline alone depends on nothing else. -/
theorem ignoresFlow_timeline : IgnoresFlow fun op => P op.timeline where
  flow _ h := h
  consumed _ h := h

variable (hmove : ∀ t m t', P t → t.move m = .ok t' → P t')
include hmove

theorem keeps_execute_timeline (lib : Library) (c : Call) :
    (execute lib c).Keeps fun op => P op.timeline := by
  refine keeps_execute ⟨ignoresFlow_timeline, hmove _ _ _⟩ lib c fun op op' h hentry => ?_
  cases hentry <;> exact h

/-- What every move keeps holds of the timeline after every script. -/
theorem timeline_after {op : Operator} (h : P op.timeline) (script : Script) :
    P (op.after script).timeline :=
  keeps_after (P := fun op => P op.timeline) (keeps_execute_timeline hmove) h script

end Moves

/-! ## The end of a description -/

theorem faults_carry (s : Signal) (cycle : Nat) :
    (carry s cycle).Faults Dataflow.OfSignals := by
  apply faults_bind (Dataflow.faults_declare _)
  intro base
  refine faults_bind (faults_modify _) fun _ => ?_
  exact faults_bind (Dataflow.faults_resolve _ _) fun _ => faults_pure _

theorem faults_expose (depth : Nat) (out : OutputPort) :
    (expose depth out).Faults Dataflow.OfSignals := by
  intro op
  simp only [expose, wp_bind, wp_get]
  split
  · trivial
  next s _ =>
    rw [wp_ite]
    refine ⟨fun _ => trivial, fun _ => ?_⟩
    rw [wp_bind, wp_onFlow]
    exact (faults_carry s depth op.flow).mono (fun _ _ _ => trivial) fun _ _ h => h

/-- No peak exceeds the period, so whatever was described can be laid out. -/
theorem layOut_of_bounded {op : Operator} (h : op.timeline.Bounded) (depth : Nat)
    (outputs : List ExposedOutput) : ∃ schedule, op.layOut depth outputs = .ok schedule := by
  have hfit : ∀ realignments, (op.slices depth realignments).find?
      (fun s => op.timeline.pipelined ∧ op.timeline.period < s.peak) = none := by
    intro realignments
    simp only [List.find?_eq_none, slices, List.mem_map, decide_eq_true_eq]
    rintro slice ⟨cycle, -, rfl⟩ ⟨-, hlong⟩
    exact Binary64.not_lt_of_le (h.peak cycle).2 hlong
  unfold layOut
  simp only [hfit]
  exact ⟨_, rfl⟩

/-- On a bounded timeline, the end of a description fails for signals only. -/
theorem finish_of_bounded {op : Operator} (h : op.timeline.Bounded) :
    finish.wp (fun _ _ => True) (fun e _ => Dataflow.OfSignals e) op := by
  have hkeeps : (forEach (expose op.exposure) op.outputs.toList).Keeps
      fun op => op.timeline.Bounded :=
    keeps_forEach fun out _ => keeps_expose ignoresFlow_timeline op.exposure out
  have hfaults : (forEach (expose op.exposure) op.outputs.toList).Faults Dataflow.OfSignals :=
    faults_forEach fun out _ => faults_expose op.exposure out
  simp only [finish, wp_bind, wp_get]
  refine ((hkeeps op h).and (hfaults op)).mono (fun outputs op' hop' => ?_) fun e _ he => he.2
  obtain ⟨schedule, hschedule⟩ := layOut_of_bounded hop'.1 op.exposure outputs
  rw [wp_ofExcept, hschedule]
  refine ⟨fun _ _ => ?_, fun e he => by cases he⟩
  exact (faults_forEach fun e _ => faults_report e) op'

/-! ## The budget of operators -/

/-- The calls that do nothing but move along the timeline. -/
inductive MovesTimeline : Call → Prop where
  | setCycle (cycle : Nat) : MovesTimeline (.setCycle cycle)
  | advance : MovesTimeline .advance
  | accrue (delay : Float) : MovesTimeline (.accrue delay)
  | setCriticalPath (delay : Float) : MovesTimeline (.setCriticalPath delay)
  | jump (name : String) : MovesTimeline (.jump name)
  | join (name : String) : MovesTimeline (.join name)

/-- A move that fails leaves the operator as it was. This is so whatever the move: it answers
with a new timeline or with a fault, and a fault leaves no timeline behind that could be kept. -/
theorem onTimeline_failed {ε : Type} {f : Timeline → Except ε Timeline} {op : Operator} {e : ε}
    (h : (onTimeline f op).result = .error e) : (onTimeline f op).state = op := by
  have hwp : (onTimeline f).wp (fun _ _ => True) (fun _ op' => op' = op) op :=
    wp_onTimeline.mpr ⟨fun _ _ => trivial, fun _ _ => rfl⟩
  exact hwp.of_error h

theorem execute_failed {lib : Library} {c : Call} (hc : MovesTimeline c) {op : Operator}
    {e : Fault} (h : (execute lib c op).result = .error e) : (execute lib c op).state = op := by
  suffices hwp : (execute lib c).wp (fun _ _ => True) (fun _ op' => op' = op) op from
    hwp.of_error h
  cases hc with
  | setCycle cycle => simp [execute]
  | advance => simp [execute]
  | accrue delay =>
      simp only [execute, accrue, wp_bind, wp_get, wp_ofExcept]
      refine ⟨?_, fun _ _ => trivial⟩
      rintro ⟨accrual, t⟩ -
      cases accrual <;> simp
  | setCriticalPath delay => simp [execute]
  | jump name => simp [execute]
  | join name => simp [execute]

/-- A call that moves along the timeline and fails leaves the operator as it was. -/
theorem perform_failed {lib : Library} {c : Call} (hc : MovesTimeline c) {op : Operator}
    {failure : Failure} (h : (perform lib c op).result = .error failure) :
    (perform lib c op).state = op := by
  cases hopen : op.isFinished with
  | true => exact (perform_of_closed hopen).2
  | false =>
      rw [(perform_of_open hopen).2]
      exact execute_failed hc (execute_of_failed hopen h)

/-- However an operator for a pipelined target was described, its timeline is within the
budget. -/
theorem budgeted_after {period : Float} (hperiod : 0 ≤ period) (handle : Handle) (name : String)
    (script : Script) : ((blank handle name period true).after script).timeline.Budgeted :=
  timeline_after (fun _ _ _ h ht => budgeted_move h ht) (budgeted_start hperiod) script

/-- An operator for a pipelined target never fails to be finished for a delay. -/
theorem finish_untimed {period : Float} (hperiod : 0 ≤ period) {handle : Handle} {name : String}
    {script : Script} {lib : Library} {failure : Failure}
    (h : (perform lib .finish ((blank handle name period true).after script)).result =
      .error failure) (delay limit : Float) : failure.fault ≠ .unreachableTiming delay limit := by
  cases hopen : ((blank handle name period true).after script).isFinished with
  | true =>
      rw [(perform_of_closed hopen).1] at h
      cases h
      simp
  | false =>
      have hbounded := (budgeted_after hperiod handle name script).toBounded
      have hwp : (execute lib .finish).wp (fun _ _ => True) (fun e _ => Dataflow.OfSignals e)
          ((blank handle name period true).after script) := by
        simpa [execute] using finish_of_bounded hbounded
      have hfault := hwp.of_error (execute_of_failed hopen h)
      intro hcontra
      rw [hcontra] at hfault
      cases hfault

/-- On a pipelined target with the given period, whatever is tried on a timeline, the
critical path of the current cycle lies between the arrivals in that cycle and the period,
and so do all recorded arrivals and peaks. What fails changes nothing, and the end of a
description never fails for a path that is too long. -/
theorem timing_within_budget {period : Float} (hperiod : 0 ≤ period) :
    (∀ moves : List Move, let t := ({ period, pipelined := true } : Timeline).follow moves
      (0 ≤ t.floor t.cycle ∧ t.floor t.cycle ≤ t.criticalPath ∧ t.criticalPath ≤ period) ∧
        (∀ (cycle : Nat) (x : Float), t.floors[cycle]? = some x → 0 ≤ x ∧ x ≤ period) ∧
        (∀ (cycle : Nat) (x : Float), t.peaks[cycle]? = some x → 0 ≤ x ∧ x ≤ period) ∧
        (0 < t.criticalPath → t.criticalPath ≤ t.peak t.cycle)) ∧
      (∀ (op : Operator) (m : Move) (e : Fault),
        (onTimeline (·.move m) op).result = .error e → (onTimeline (·.move m) op).state = op) ∧
      (∀ (lib : Library) (c : Call) (op : Operator) (failure : Failure), MovesTimeline c →
        (perform lib c op).result = .error failure → (perform lib c op).state = op) ∧
      ∀ (handle : Handle) (name : String) (script : Script) (lib : Library) (failure : Failure),
        (perform lib .finish ((blank handle name period true).after script)).result =
            .error failure →
          ∀ delay limit, failure.fault ≠ .unreachableTiming delay limit := by
  refine ⟨fun moves => ?_, fun op m e => onTimeline_failed,
    fun lib c op failure hc h => perform_failed hc h,
    fun handle name script lib failure h => finish_untimed hperiod h⟩
  intro t
  have h : t.Budgeted := budgeted_follow (budgeted_start hperiod) moves
  have hsame : t.period = period := period_follow moves
  have hfits : ∀ x, t.InPeriod x → 0 ≤ x ∧ x ≤ period := by
    intro x hx
    rwa [InPeriod, hsame] at hx
  refine ⟨⟨(h.floor t.cycle).1, h.floor_le, hsame ▸ h.path_le⟩, ?_, ?_, h.path_le_peak⟩
  · exact fun cycle x hx => hfits x (h.floors cycle x hx)
  · exact fun cycle x hx => hfits x (h.peaks cycle x hx)

/-- With a period of four, a value arrives in cycle one, three nanoseconds of work fill cycle
zero, two more go to cycle one, on top of the arrival, and a path of five is turned down. -/
theorem timing_within_four :
    let moves : List Move := [.arrive 1 1, .accrue 3, .accrue 2, .setCriticalPath 5]
    let t := ({ period := 4, pipelined := true } : Timeline).follow moves
    let op : Operator := { blank 0 "four" 4 true with timeline := t }
    (0 : Float) ≤ 4 ∧ (t.cycle = 1 ∧ t.floor 1 = 1 ∧ t.peak 0 = 3 ∧ t.criticalPath = 3) ∧
      (t.floor t.cycle ≤ t.criticalPath ∧ t.criticalPath ≤ 4 ∧ t.criticalPath ≤ t.peak t.cycle) ∧
      (onTimeline (·.move (.setCriticalPath 5)) op).result = .error (.unreachableTiming 5 4) ∧
      (onTimeline (·.move (.setCriticalPath 5)) op).state = op := by
  intro moves t op
  have hperiod : (0 : Float) ≤ 4 := by decide
  obtain ⟨hmoves, hfailed, -⟩ := timing_within_budget hperiod
  obtain ⟨⟨-, hfloor, hpath⟩, -, -, hpeak⟩ := hmoves moves
  have hend : t.cycle = 1 ∧ t.floor 1 = 1 ∧ t.peak 0 = 3 ∧ t.criticalPath = 3 := by
    decide +kernel
  have hpositive : 0 < t.criticalPath := by
    rw [hend.2.2.2]
    decide
  have hlong : t.setCriticalPath 5 = .error (.unreachableTiming 5 4) := by
    have hpipelined : t.pipelined = true := (budgeted_follow (budgeted_start hperiod) moves).pipelined
    have hsame : t.period = 4 := period_follow moves
    have hfour : (4 : Float) < 5 := by decide
    have hturned : ¬ t.Admits 5 := fun hadmits => hadmits.2.2 ⟨hpipelined, hsame ▸ hfour⟩
    rw [setCriticalPath, if_neg hturned, hsame]
  have hfails : (onTimeline (·.move (.setCriticalPath 5)) op).result =
      .error (.unreachableTiming 5 4) := by
    simp only [onTimeline, bind, Action.bind, Action.get, Action.ofExcept, move, op, hlong]
  exact ⟨hperiod, hend, ⟨hfloor, hpath, hpeak hpositive⟩, hfails, hfailed op _ _ hfails⟩

end Retime.Operator
