import Retime.Proofs.Operator.Finish
import Retime.Proofs.Operator.Instantiate
import Retime.Proofs.Timeline.Calls

/-! # Completed scripts

What each call does to an operator when it succeeds, in one relation. Consistency of the
operator and the persistence of its parts follow for all scripts whose calls succeed.
-/

namespace Retime.Operator

open Retime.Action Dataflow

/-- The declaration of a signal that is valid in the current cycle. -/
def declared (op : Operator) (name : String) (role : Role) (clocking : Clocking) (width : Width)
    (driver : Driver) : Declaration :=
  { name, role, clocking, width, cycle := op.timeline.cycle, driver }

/-- `op'` has the signal `decl` in addition to those of `op`. -/
structure Declares (op op' : Operator) (decl : Declaration) : Prop where
  free : op.flow.netlist.contains decl.name = false
  flow : op'.flow = { op.flow with netlist := op.flow.netlist.add decl }
  instances : op'.instances = op.instances

/-- `op'` differs from `op` in its timeline only. -/
structure Moved (op op' : Operator) : Prop where
  flow : op'.flow = op.flow
  inputs : op'.inputs = op.inputs
  outputs : op'.outputs = op.outputs
  instances : op'.instances = op.instances

/-- The effect of a call that succeeds. -/
inductive Performed (lib : Library) (op op' : Operator) : Call → Prop where
  | input (name : String) (width : Width)
      (declares : op.Declares op' (op.declared name .input .combinational width .port))
      (inputs : op'.inputs = op.inputs.push op.flow.netlist.size)
      (outputs : op'.outputs = op.outputs) : Performed lib op op' (.input name width)
  | declare (name : String) (width : Width) (clocking : Clocking) (text : String)
      (declares : op.Declares op' (op.declared name .internal clocking width (.expr text)))
      (inputs : op'.inputs = op.inputs) (outputs : op'.outputs = op.outputs) :
      Performed lib op op' (.declare name width clocking text)
  | output (name : String) (width : Width) (text : String)
      (declares : op.Declares op' (op.declared name .output .combinational width (.expr text)))
      (inputs : op'.inputs = op.inputs)
      (outputs : op'.outputs = op.outputs.push
        { signal := op.flow.netlist.size, delay := op.timeline.criticalPath }) :
      Performed lib op op' (.output name width text)
  | consume (name : String) (id : SignalId) (lengthened : op.Lengthened op')
      (reads : op.flow.Reads op'.flow name op.timeline.cycle id)
      (answer : (Operator.consume name op).result = .ok (op'.flow.netlist.name id)) :
      Performed lib op op' (.consume name)
  | consumeField (name : String) (field : FloatField) (id : SignalId)
      (lengthened : op.Lengthened op') (reads : op.flow.Reads op'.flow name op.timeline.cycle id)
      (answer : (Operator.consume name op).result = .ok (op'.flow.netlist.name id)) :
      Performed lib op op' (.consumeField name field)
  | timeline {c : Call} (moves : MovesTimeline c) (moved : op.Moved op') : Performed lib op op' c
  | instantiate (sub : Handle) (name : String) (wiring : Wiring) (inst : Instance)
      (placement : Placement lib sub name wiring op op' inst) :
      Performed lib op op' (.instantiate sub name wiring)
  | finish (schedule : Schedule) (exposed : List ExposedOutput)
      (finished : Finished op op' schedule exposed) : Performed lib op op' .finish

variable {lib : Library} {op op' : Operator} {c : Call}

/-! ## Each call -/

theorem performed_onTimeline (hc : MovesTimeline c) (f : Timeline → Except Fault Timeline) :
    (onTimeline f).wp (fun _ op' => Performed lib op op' c) (fun _ _ => True) op :=
  wp_onTimeline.mpr ⟨fun _ _ => .timeline hc ⟨rfl, rfl, rfl, rfl⟩, fun _ _ => trivial⟩

theorem performed_accrue (delay : Float) :
    (accrue delay).wp (fun _ op' => Performed lib op op' (.accrue delay)) (fun _ _ => True)
      op := by
  simp only [accrue, wp_bind, wp_get, wp_ofExcept]
  refine ⟨?_, fun _ _ => trivial⟩
  rintro ⟨accrual, t⟩ -
  cases accrual with
  | fitted => exact wp_modify.mpr (.timeline (.accrue delay) ⟨rfl, rfl, rfl, rfl⟩)
  | cut =>
      rw [wp_bind, wp_report, wp_modify]
      exact .timeline (.accrue delay) ⟨rfl, rfl, rfl, rfl⟩

/-- The answer of a consumption is known together with its effect. -/
theorem wp_consume_answer (h : op.flow.Sound) (name : String) :
    (consume name).wp (fun _ op' => ∃ id, op.Lengthened op' ∧
        op.flow.Reads op'.flow name op.timeline.cycle id ∧
          (consume name op).result = .ok (op'.flow.netlist.name id))
      (fun _ _ => True) op := by
  refine ((wp_consume h name).and wp_of_result).mono ?_ fun _ _ _ => trivial
  rintro answer op' ⟨⟨hlonger, id, hreads, rfl⟩, hanswer, -⟩
  exact ⟨id, hlonger, hreads, hanswer⟩

theorem performed_execute (h : op.Sound) (lib : Library) (c : Call) :
    (execute lib c).wp (fun _ op' => Performed lib op op' c) (fun _ _ => True) op := by
  cases c with
  | input name width =>
      refine wp_bind.mpr (wp_bind.mpr (wp_declareHere.mpr (wp_declare.mpr ?_)))
      refine ⟨fun _ => trivial, fun hfree => ?_⟩
      exact .input name width ⟨hfree, rfl, rfl⟩ rfl rfl
  | declare name width clocking text =>
      refine wp_bind.mpr (wp_declareHere.mpr (wp_declare.mpr ?_))
      refine ⟨fun _ => trivial, fun hfree => ?_⟩
      exact .declare name width clocking text ⟨hfree, rfl, rfl⟩ rfl rfl
  | output name width text =>
      refine wp_bind.mpr (wp_bind.mpr (wp_declareHere.mpr (wp_declare.mpr ?_)))
      refine ⟨fun _ => trivial, fun hfree => ?_⟩
      exact .output name width text ⟨hfree, rfl, rfl⟩ rfl rfl
  | consume name =>
      refine wp_map.mpr ((wp_consume_answer h.flow name).mono ?_ fun _ _ _ => trivial)
      rintro answer op' ⟨id, hlonger, hreads, hanswer⟩
      exact .consume name id hlonger hreads hanswer
  | consumeField name field =>
      refine wp_map.mpr (wp_bind.mpr (wp_find.mpr ⟨fun s _ => ?_, fun _ _ => trivial⟩))
      split
      · trivial
      · refine wp_bind.mpr ((wp_consume_answer h.flow name).mono ?_ fun _ _ _ => trivial)
        rintro answer op' ⟨id, hlonger, hreads, hanswer⟩
        exact .consumeField name field id hlonger hreads hanswer
  | setCycle cycle => exact wp_bind.mpr (performed_onTimeline (.setCycle cycle) _)
  | advance => exact wp_bind.mpr (performed_onTimeline .advance _)
  | accrue delay => exact wp_bind.mpr (performed_accrue delay)
  | setCriticalPath delay => exact wp_bind.mpr (performed_onTimeline (.setCriticalPath delay) _)
  | jump name =>
      refine wp_bind.mpr (wp_find.mpr ⟨fun s _ => ?_, fun _ _ => trivial⟩)
      exact wp_bind.mpr (performed_onTimeline (.jump name) _)
  | join name =>
      refine wp_bind.mpr (wp_find.mpr ⟨fun s _ => ?_, fun _ _ => trivial⟩)
      exact wp_bind.mpr (performed_onTimeline (.join name) _)
  | instantiate sub name wiring =>
      refine wp_bind.mpr ((wp_instantiate h.flow lib sub name).mono ?_ fun _ _ _ => trivial)
      rintro - op' ⟨inst, hplaced⟩
      exact .instantiate sub name wiring inst hplaced
  | finish =>
      refine wp_bind.mpr ((wp_finish h).mono ?_ fun _ _ _ => trivial)
      rintro - op' ⟨schedule, exposed, hfinished⟩
      exact .finish schedule exposed hfinished

theorem performed_of_succeeds {entry : Library × Call} (h : op.Sound)
    (hsucceeds : op.Succeeds entry) : Performed entry.1 op (op.step entry) entry.2 := by
  obtain ⟨-, hstep, answer, hanswer⟩ := execute_of_succeeds hsucceeds
  rw [hstep]
  exact (performed_execute h entry.1 entry.2).of_ok hanswer

/-- A call that does not have its effect makes no entry. -/
theorem step_cases (h : op.Sound) (entry : Library × Call) :
    SameEntries op (op.step entry) ∨ Performed entry.1 op (op.step entry) entry.2 := by
  unfold step
  cases hopen : op.isFinished with
  | true =>
      rw [(perform_of_closed hopen).2]
      exact .inl ⟨rfl, rfl, rfl, rfl, rfl, rfl⟩
  | false =>
      rw [(perform_of_open hopen).2]
      cases hresult : (execute entry.1 entry.2 op).result with
      | error e => exact .inl ((wp_execute_sameEntries entry.1 entry.2 op).of_error hresult)
      | ok answer => exact .inr ((performed_execute h entry.1 entry.2).of_ok hresult)

/-- An output is declared by its call only, with the critical path as its delay. -/
theorem declares_output_of_step (h : op.Sound) (entry : Library × Call) :
    (op.step entry).outputs = op.outputs ∨ ∃ name width text, entry.2 = .output name width text ∧
      op.Declares (op.step entry)
        (op.declared name .output .combinational width (.expr text)) ∧
      (op.step entry).outputs =
        op.outputs.push ⟨op.flow.netlist.size, op.timeline.criticalPath⟩ := by
  rcases step_cases h entry with hsame | hperformed
  · exact .inl hsame.outputs
  obtain ⟨lib, c⟩ := entry
  cases hperformed with
  | input name width declares inputs outputs => exact .inl outputs
  | declare name width clocking text declares inputs outputs => exact .inl outputs
  | output name width text declares inputs outputs =>
      exact .inr ⟨name, width, text, rfl, declares, outputs⟩
  | consume name id lengthened => exact .inl lengthened.outputs
  | consumeField name field id lengthened => exact .inl lengthened.outputs
  | timeline moves moved => exact .inl moved.outputs
  | instantiate sub name wiring inst placement => exact .inl placement.outputs
  | finish schedule exposed finished => exact .inl finished.aligned.outputs

/-- An output is added with the critical path as its delay, in the current cycle, or none is. -/
theorem outputs_step (h : op.Sound) (entry : Library × Call) :
    (op.step entry).outputs = op.outputs ∨
      ∃ s, (op.step entry).flow.netlist.signal? op.flow.netlist.size = some s ∧
        s.cycle = op.timeline.cycle ∧ (op.step entry).outputs =
          op.outputs.push ⟨op.flow.netlist.size, op.timeline.criticalPath⟩ := by
  rcases declares_output_of_step h entry with hsame | ⟨name, width, text, -, declares, outputs⟩
  · exact .inl hsame
  · rw [declares.flow]
    exact .inr ⟨_, Netlist.signal?_add_size _, rfl, outputs⟩

/-- An instance is placed by its call only. -/
theorem placement_of_step (h : op.Sound) (entry : Library × Call) :
    (op.step entry).instances = op.instances ∨ ∃ sub name wiring inst,
      entry.2 = .instantiate sub name wiring ∧
        Placement entry.1 sub name wiring op (op.step entry) inst := by
  rcases step_cases h entry with hsame | hperformed
  · exact .inl hsame.instances
  obtain ⟨lib, c⟩ := entry
  cases hperformed with
  | input name width declares => exact .inl declares.instances
  | declare name width clocking text declares => exact .inl declares.instances
  | output name width text declares => exact .inl declares.instances
  | consume name id lengthened => exact .inl lengthened.instances
  | consumeField name field id lengthened => exact .inl lengthened.instances
  | timeline moves moved => exact .inl moved.instances
  | instantiate sub name wiring inst placement =>
      exact .inr ⟨sub, name, wiring, inst, rfl, placement⟩
  | finish schedule exposed finished => exact .inl finished.aligned.instances

/-- An operator with a schedule was finished by the call, or the call was refused. -/
theorem finished_of_step (h : op.Sound) (entry : Library × Call) {schedule : Schedule}
    (hschedule : (op.step entry).schedule = some schedule) :
    op.step entry = op ∨ ∃ exposed, Finished op (op.step entry) schedule exposed := by
  cases hopen : op.isFinished with
  | true => exact .inl (perform_of_closed hopen).2
  | false =>
      have hnone : op.schedule = none := by simpa [isFinished] using hopen
      obtain ⟨lib, c⟩ := entry
      by_cases hc : c = .finish
      · subst hc
        rcases step_cases h (lib, .finish) with hsame | hperformed
        · rw [hsame.schedule, hnone] at hschedule
          cases hschedule
        · cases hperformed with
          | timeline moves => cases moves
          | finish schedule' exposed finished =>
              obtain rfl := Option.some.inj (finished.schedule_eq.symm.trans hschedule)
              exact .inr ⟨exposed, finished⟩
      · rw [schedule_step hc, hnone] at hschedule
        cases hschedule

/-! ## What stays -/

/-- All signals, stages and instances of `op` are in the same places in `op'`. -/
structure Persists (op op' : Operator) : Prop where
  flow : op.flow.Extends op'.flow
  instances : ∀ {i : Nat} {inst}, op.instances[i]? = some inst → op'.instances[i]? = some inst

theorem Persists.refl (op : Operator) : op.Persists op :=
  ⟨.refl _, fun hi => hi⟩

theorem Persists.trans {op'' : Operator} (h : op.Persists op') (h' : op'.Persists op'') :
    op.Persists op'' :=
  ⟨h.flow.trans h'.flow, fun hi => h'.instances (h.instances hi)⟩

theorem Declares.persists {decl : Declaration} (h : op.Declares op' decl) : op.Persists op' where
  flow := h.flow ▸ extends_declare decl
  instances hi := h.instances ▸ hi

theorem Performed.persists (h : Performed lib op op' c) : op.Persists op' := by
  cases h with
  | input name width declares => exact declares.persists
  | declare name width clocking text declares => exact declares.persists
  | output name width text declares => exact declares.persists
  | consume name id lengthened =>
      exact ⟨lengthened.extends_flow, fun hi => lengthened.instances ▸ hi⟩
  | consumeField name field id lengthened =>
      exact ⟨lengthened.extends_flow, fun hi => lengthened.instances ▸ hi⟩
  | timeline moves moved => exact ⟨moved.flow ▸ .refl _, fun hi => moved.instances ▸ hi⟩
  | instantiate sub name wiring inst placement => exact ⟨placement.extends_flow, placement.instances_kept⟩
  | finish schedule exposed finished =>
      exact ⟨finished.aligned.extends_flow, fun hi => finished.aligned.instances ▸ hi⟩

/-! ## Consistency -/

theorem Declares.consistent {decl : Declaration} (h : op.Declares op' decl) (hop : op.Consistent)
    (hfresh : op'.Fresh ⟨decl, op.flow.netlist.size⟩)
    (hdriver : ∀ r depth, decl.driver ≠ .stage r depth)
    (hinputs : ∀ id ∈ op.inputs, id ∈ op'.inputs)
    (houtputs : ∀ out ∈ op.outputs, out ∈ op'.outputs)
    (hroles : ∀ out ∈ op'.outputs, out ∈ op.outputs ∨
      out.signal = op.flow.netlist.size ∧ decl.role = .output) : op'.Consistent := by
  have hext : op.flow.Extends op'.flow := h.persists.flow
  refine hop.extend ?_ hext.netlist (fun {s} hs => ?_) hinputs houtputs ?_ h.instances
  · rw [h.flow]
    exact hop.flow.declare h.free hdriver
  · rw [h.flow] at hs
    rcases Netlist.signal?_add_cases hs with ⟨-, rfl⟩ | hs
    · exact .inr hfresh
    · exact .inl hs
  · intro out hout
    apply (hroles out hout).imp_right
    rintro ⟨hid, hrole⟩
    rw [hid, h.flow]
    exact ⟨_, Netlist.signal?_add_size decl, hrole⟩

theorem Performed.consistent (h : Performed lib op op' c) (hop : op.Consistent) :
    op'.Consistent := by
  cases h with
  | input name width declares inputs outputs =>
      refine declares.consistent hop ⟨.port, ?_, ?_, ?_⟩ (by simp [declared]) ?_ ?_ ?_
      · intro _
        rw [inputs]
        exact Array.mem_push_self
      · simp [declared]
      · simp [declared]
      · intro id hid
        rw [inputs]
        exact Array.mem_push_of_mem _ hid
      · exact fun out hout => outputs ▸ hout
      · exact fun out hout => .inl (outputs ▸ hout)
  | declare name width clocking text declares inputs outputs =>
      refine declares.consistent hop ?_ (by simp [declared]) ?_ ?_ ?_
      · exact fresh_internal rfl (.expr text) (by simp [declared])
      · exact fun id hid => inputs ▸ hid
      · exact fun out hout => outputs ▸ hout
      · exact fun out hout => .inl (outputs ▸ hout)
  | output name width text declares inputs outputs =>
      refine declares.consistent hop ⟨.output text, ?_, ?_, ?_⟩ (by simp [declared]) ?_ ?_ ?_
      · simp [declared]
      · intro _
        rw [outputs]
        exact ⟨_, Array.mem_push_self, rfl⟩
      · simp [declared]
      · exact fun id hid => inputs ▸ hid
      · intro out hout
        rw [outputs]
        exact Array.mem_push_of_mem _ hout
      · intro out hout
        rw [outputs] at hout
        apply (Array.mem_push.mp hout).imp_right
        rintro rfl
        exact ⟨rfl, rfl⟩
  | consume name id lengthened => exact hop.lengthened lengthened
  | consumeField name field id lengthened => exact hop.lengthened lengthened
  | timeline moves moved =>
      exact hop.congr moved.flow moved.inputs moved.outputs moved.instances
  | instantiate sub name wiring inst placement => exact placement.consistent hop
  | finish schedule exposed finished =>
      exact finished.aligned.consistent hop fun out hout => Array.mem_toList_iff.mp hout

/-! ## Scripts -/

theorem consistent_after (h : op.Consistent) {script : Script} (hcompletes : op.Completes script) :
    (op.after script).Consistent := by
  induction script generalizing op with
  | nil => exact h
  | cons entry script ih =>
      exact ih ((performed_of_succeeds h.sound hcompletes.1).consistent h) hcompletes.2

theorem persists_after (h : op.Consistent) {script : Script} (hcompletes : op.Completes script) :
    op.Persists (op.after script) := by
  induction script generalizing op with
  | nil => exact .refl op
  | cons entry script ih =>
      have hstep := performed_of_succeeds h.sound hcompletes.1
      exact hstep.persists.trans (ih (hstep.consistent h) hcompletes.2)

/-- The operator of a description that was finished, with its schedule. -/
theorem finished_after (h : op.Consistent) {script : Script} {lib : Library}
    (hcompletes : op.Completes (script ++ [(lib, .finish)])) :
    ∃ schedule exposed,
      Finished (op.after script) (op.after (script ++ [(lib, .finish)])) schedule exposed := by
  obtain ⟨hbefore, hlast, -⟩ := completes_append.mp hcompletes
  rw [after_append]
  have hstep := performed_of_succeeds (consistent_after h hbefore).sound hlast
  cases hstep with
  | timeline moves => cases moves
  | finish schedule exposed finished => exact ⟨schedule, exposed, finished⟩

end Retime.Operator
