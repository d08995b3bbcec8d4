import Retime.Proofs.Operator.Script
import Retime.Proofs.Timeline.Budget

/-! # What calls leave alone

Until its last step a call changes the dataflow, the timeline and the set of signals that
were read, and only if that goes well it makes an entry in the operator. So a call that
fails leaves all entries as they were.
-/

namespace Retime.Operator

open Retime.Action Timeline

/-- `P` does not depend on the dataflow and on what was read. -/
structure IgnoresFlow (P : Operator → Prop) : Prop where
  flow : ∀ {op} (flow : Dataflow), P op → P { op with flow }
  consumed : ∀ {op} (consumed : Std.HashSet SignalId), P op → P { op with consumed }

/-- Moves along the timeline keep `P` as well. -/
structure Steady (P : Operator → Prop) : Prop extends IgnoresFlow P where
  move : ∀ {op} {m : Move} {timeline : Timeline}, P op →
    op.timeline.move m = .ok timeline → P { op with timeline }

/-- The entry that a call makes at its end. -/
inductive Enters (op : Operator) : Call → Operator → Prop where
  | nothing (c : Call) : Enters op c op
  | input {name : String} {width : Width} (id : SignalId) :
      Enters op (.input name width) { op with inputs := op.inputs.push id }
  | output {name : String} {width : Width} {expr : String} (out : OutputPort) :
      Enters op (.output name width expr) { op with outputs := op.outputs.push out }
  | instantiate {sub : Handle} {name : String} {wiring : Wiring} (inst : Instance) :
      Enters op (.instantiate sub name wiring) { op with instances := op.instances.push inst }
  | finish (schedule : Schedule) :
      Enters op .finish { op with schedule := some schedule }

variable {P : Operator → Prop}

/-! ## The pieces of calls -/

section IgnoresFlow

variable (h : IgnoresFlow P)
include h

theorem keeps_onFlow {α : Type} (m : Action Fault Dataflow α) : Keeps P (onFlow m) :=
  fun _ hop => wp_onFlow.mpr (wp_of_result.mono (fun _ d _ => h.flow d hop) fun _ d _ =>
    h.flow d hop)

omit h in
theorem keeps_find (name : String) : Keeps P (find name) :=
  keeps_bind keeps_get fun _ => keeps_ofExcept _

theorem keeps_declareHere (name : String) (role : Role) (clocking : Clocking) (width : Width)
    (driver : Driver) : Keeps P (declareHere name role clocking width driver) :=
  keeps_bind keeps_get fun _ => keeps_onFlow h _

theorem keeps_read (name : String) (cycle : Nat) : Keeps P (read name cycle) := by
  refine keeps_bind (keeps_find name) fun s => keeps_ite (keeps_stop _) ?_
  refine keeps_bind (keeps_onFlow h _) fun id => ?_
  exact keeps_bind (keeps_modify fun _ => h.consumed _) fun _ => keeps_pure _

theorem keeps_consume (name : String) : Keeps P (consume name) := by
  refine keeps_bind keeps_get fun op => keeps_bind (keeps_read h name _) fun id => ?_
  exact keeps_bind keeps_get fun _ => keeps_pure _

theorem keeps_consumeField (name : String) (field : FloatField) :
    Keeps P (consumeField name field) := by
  apply keeps_bind (keeps_find name)
  intro s
  split
  · exact keeps_stop _
  · exact keeps_bind (keeps_consume h name) fun _ => keeps_pure _

theorem keeps_connectInput (itf : Interface) (wiring : Wiring) (cycle : Nat) (formal : Port) :
    Keeps P (connectInput itf wiring cycle formal) := by
  unfold connectInput
  split
  · exact keeps_stop _
  · exact keeps_pure _
  next name _ =>
    refine keeps_bind (keeps_find name) fun s => keeps_ite (keeps_stop _) ?_
    exact keeps_bind (keeps_read h name cycle) fun _ => keeps_pure _

/-- A realignment declares signals and lengthens delay lines, no more. -/
theorem keeps_expose (depth : Nat) (out : OutputPort) : Keeps P (expose depth out) := by
  apply keeps_bind keeps_get
  intro op
  split
  · exact keeps_pure _
  · apply keeps_ite (keeps_pure _)
    exact keeps_bind (keeps_onFlow h _) fun _ => keeps_pure _

end IgnoresFlow

section Steady

variable (h : Steady P)
include h

theorem keeps_onTimeline (m : Move) : Keeps P (onTimeline (·.move m)) :=
  fun _ hop => wp_onTimeline.mpr ⟨fun _ ht => h.move hop ht, fun _ _ => hop⟩

theorem keeps_accrue (delay : Float) : Keeps P (accrue delay) := by
  intro op hop
  simp only [accrue, wp_bind, wp_get, wp_ofExcept]
  refine ⟨?_, fun _ _ => hop⟩
  rintro ⟨accrual, t⟩ ht
  have hreached : P { op with timeline := t } :=
    h.move (m := .accrue delay) hop (by simp [move, ht, Except.map])
  cases accrual <;> simpa using hreached

theorem keeps_connectOutput (wiring : Wiring) (id cycle : Nat) (formal : Port) :
    Keeps P (connectOutput wiring id cycle formal) := by
  unfold connectOutput
  split
  · exact keeps_pure _
  · refine keeps_bind (keeps_onFlow h.toIgnoresFlow _) fun signal => ?_
    exact keeps_bind (keeps_onTimeline h (.arrive cycle formal.delay)) fun _ => keeps_pure _

/-! ## Whole calls -/

/-- A call keeps `P` until its last step, which cannot fail. -/
theorem wp_execute_enters (lib : Library) (c : Call) {op : Operator} (hop : P op) :
    (execute lib c).wp (fun _ op' => ∃ before, P before ∧ Enters before c op')
      (fun _ => P) op := by
  -- the calls that make no entry
  have hnothing : ∀ {α : Type} {m : Action Fault Operator α}, Keeps P m →
      m.wp (fun _ op' => ∃ before, P before ∧ Enters before c op') (fun _ => P) op :=
    fun hm => (hm op hop).mono (fun _ op' hop' => ⟨op', hop', .nothing c⟩) fun _ _ hop' => hop'
  have hflow := h.toIgnoresFlow
  cases c with
  | input name width =>
      refine wp_bind.mpr (wp_bind.mpr ?_)
      refine (keeps_declareHere hflow _ _ _ _ _ op hop).mono ?_ fun _ _ hop' => hop'
      exact fun id op' hop' => ⟨op', hop', .input id⟩
  | declare name width clocking expr =>
      exact hnothing (keeps_bind (keeps_declareHere hflow _ _ _ _ _) fun _ => keeps_pure _)
  | output name width expr =>
      refine wp_bind.mpr (wp_bind.mpr ?_)
      refine (keeps_declareHere hflow _ _ _ _ _ op hop).mono ?_ fun _ _ hop' => hop'
      exact fun id op' hop' => ⟨op', hop', .output _⟩
  | consume name => exact hnothing (keeps_map (keeps_consume hflow name))
  | consumeField name field => exact hnothing (keeps_map (keeps_consumeField hflow name field))
  | setCycle cycle =>
      exact hnothing (keeps_bind (keeps_onTimeline h (.enter cycle)) fun _ => keeps_pure _)
  | advance => exact hnothing (keeps_bind (keeps_onTimeline h .advance) fun _ => keeps_pure _)
  | accrue delay => exact hnothing (keeps_bind (keeps_accrue h delay) fun _ => keeps_pure _)
  | setCriticalPath delay =>
      exact hnothing
        (keeps_bind (keeps_onTimeline h (.setCriticalPath delay)) fun _ => keeps_pure _)
  | jump name =>
      refine hnothing (keeps_bind (keeps_find name) fun s => ?_)
      exact keeps_bind (keeps_onTimeline h (.jump s.cycle)) fun _ => keeps_pure _
  | join name =>
      refine hnothing (keeps_bind (keeps_find name) fun s => ?_)
      exact keeps_bind (keeps_onTimeline h (.join s.cycle)) fun _ => keeps_pure _
  | instantiate sub name wiring =>
      refine wp_bind.mpr (wp_instantiate_of (fun itf cycle _ => ?_) fun _ _ => hop)
      have hins : Keeps P (forEach (connectInput itf wiring op.timeline.cycle) itf.inputs) :=
        keeps_forEach fun p _ => keeps_connectInput hflow itf wiring _ p
      have houts : Keeps P (forEach (connectOutput wiring op.instances.size cycle) itf.outputs) :=
        keeps_forEach fun p _ => keeps_connectOutput h wiring _ cycle p
      refine (hins op hop).mono (fun inputs op₁ hop₁ => ?_) fun _ _ hop' => hop'
      refine (houts op₁ hop₁).mono (fun outputs op₂ hop₂ => ?_) fun _ _ hop' => hop'
      exact ⟨op₂, hop₂, .instantiate _⟩
  | finish =>
      simp only [execute, finish, wp_bind, wp_get, wp_ofExcept]
      have houts : Keeps P (forEach (expose op.exposure) op.outputs.toList) :=
        keeps_forEach fun out _ => keeps_expose hflow op.exposure out
      refine (houts op hop).mono (fun outputs op₁ hop₁ => ?_) fun _ _ hop' => hop'
      refine ⟨fun schedule _ => ?_, fun _ _ => hop₁⟩
      have hreports : Keeps P (forEach (Action.report : Event → Action Fault Operator Unit)
          op₁.unusedOutputs) := keeps_forEach fun e _ => keeps_report e
      refine (hreports op₁ hop₁).mono (fun _ op₂ hop₂ => ?_) fun _ _ hop' => hop'
      exact ⟨op₂, hop₂, .finish schedule⟩

/-- What no entry changes either, every call keeps. -/
theorem keeps_execute (lib : Library) (c : Call)
    (henters : ∀ op op', P op → Enters op c op' → P op') : (execute lib c).Keeps P :=
  fun _ hop => (wp_execute_enters h lib c hop).mono
    (fun _ op' ⟨before, hbefore, hentry⟩ => henters before op' hbefore hentry) fun _ _ hop' => hop'

end Steady

/-! ## Entries -/

/-- Everything but the dataflow, the timeline and what was read. -/
structure SameEntries (op op' : Operator) : Prop where
  handle : op'.handle = op.handle
  name : op'.name = op.name
  inputs : op'.inputs = op.inputs
  outputs : op'.outputs = op.outputs
  instances : op'.instances = op.instances
  schedule : op'.schedule = op.schedule

variable {op op' : Operator} {lib : Library} {c : Call}

/-- A call that fails makes no entry. -/
theorem wp_execute_sameEntries (lib : Library) (c : Call) (op : Operator) :
    (execute lib c).wp (fun _ _ => True) (fun _ => SameEntries op) op := by
  have hsteady : Steady (SameEntries op) :=
    { flow := fun _ h => ⟨h.handle, h.name, h.inputs, h.outputs, h.instances, h.schedule⟩
      consumed := fun _ h => ⟨h.handle, h.name, h.inputs, h.outputs, h.instances, h.schedule⟩
      move := fun h _ => ⟨h.handle, h.name, h.inputs, h.outputs, h.instances, h.schedule⟩ }
  exact (wp_execute_enters hsteady lib c ⟨rfl, rfl, rfl, rfl, rfl, rfl⟩).mono
    (fun _ _ _ => trivial) fun _ _ h => h

/-- No call renames an operator or moves it in its library. -/
theorem identity_step (op : Operator) (entry : Library × Call) :
    (op.step entry).handle = op.handle ∧ (op.step entry).name = op.name := by
  refine keeps_step (P := fun op' => op'.handle = op.handle ∧ op'.name = op.name)
    (fun lib c => keeps_execute ⟨⟨fun _ h => h, fun _ h => h⟩, fun h _ => h⟩ lib c ?_) ⟨rfl, rfl⟩ entry
  intro op₁ op₂ h hentry
  cases hentry <;> exact h

theorem identity_after (op : Operator) (script : Script) :
    (op.after script).handle = op.handle ∧ (op.after script).name = op.name := by
  induction script generalizing op with
  | nil => exact ⟨rfl, rfl⟩
  | cons entry script ih =>
      obtain ⟨hhandle, hname⟩ := ih (op.step entry)
      exact ⟨hhandle.trans (op.identity_step entry).1, hname.trans (op.identity_step entry).2⟩

/-- Nothing but the call for it finishes an operator. -/
theorem schedule_step (hc : c ≠ .finish) (op : Operator) :
    (op.step (lib, c)).schedule = op.schedule := by
  have hkeeps : (execute lib c).Keeps fun op' => op'.schedule = op.schedule := by
    refine keeps_execute ⟨⟨fun _ h => h, fun _ h => h⟩, fun h _ => h⟩ lib c ?_
    intro op₁ op₂ h hentry
    cases hentry with
    | finish => exact absurd rfl hc
    | _ => exact h
  unfold step
  cases hopen : op.isFinished with
  | true => rw [(perform_of_closed hopen).2]
  | false =>
      rw [(perform_of_open hopen).2]
      exact (hkeeps op rfl).state

end Retime.Operator
