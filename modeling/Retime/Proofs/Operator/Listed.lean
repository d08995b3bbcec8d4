import Retime.Proofs.Operator.Completed
import Retime.Proofs.Operator.Requests

/-! # Signals of instances

A signal that is driven by an output of an instance is declared by the instantiation alone.
So if no instantiation fails, whichever other calls do, each such signal is listed by its
instance under its formal.
-/

namespace Retime.Operator

open Retime.Action Dataflow

/-- Every signal that an instance drives is listed by the instance. -/
def Listed (op : Operator) : Prop :=
  ∀ (s : Signal) (i : Nat) (formal : String), op.flow.netlist.signal? s.id = some s →
    s.driver = .inst i formal →
      ∃ inst, op.instances[i]? = some inst ∧ (formal, some s.id) ∈ inst.outputs

/-- The call places a copy. -/
inductive Places : Call → Prop where
  | intro (sub : Handle) (name : String) (wiring : Wiring) : Places (.instantiate sub name wiring)

/-- Every instantiation of the script succeeds. -/
def CopiesSucceed : Operator → Script → Prop
  | _, [] => True
  | op, entry :: script =>
    (Places entry.2 → op.Succeeds entry) ∧ (op.step entry).CopiesSucceed script

/-- No signal that is new in `d'` is driven by an instance. -/
def Undriven (d d' : Dataflow) : Prop :=
  ∀ s : Signal, d'.netlist.signal? s.id = some s →
    d.netlist.signal? s.id = some s ∨ ∀ i formal, s.driver ≠ .inst i formal

variable {op op' : Operator} {d d' d'' : Dataflow} {lib : Library} {c : Call}

/-! ## New signals -/

theorem undriven_refl (d : Dataflow) : Undriven d d :=
  fun _ => .inl

theorem Undriven.trans (h : Undriven d d') (h' : Undriven d' d'') : Undriven d d'' := by
  intro s hs
  rcases h' s hs with hs | hnew
  · exact h s hs
  · exact .inr hnew

theorem undriven_declare {decl : Declaration} (hdriver : ∀ i formal, decl.driver ≠ .inst i formal) :
    Undriven d { d with netlist := d.netlist.add decl } := by
  intro s hs
  rcases Netlist.signal?_add_cases hs with ⟨-, hnew⟩ | hold
  · rw [hnew]
    exact .inr hdriver
  · exact .inl hold

/-- Stages are driven by no instance. -/
theorem undriven_resolve {s : Signal} (h : d.Sound) (hs : d.netlist.signal? s.id = some s)
    (hrole : s.role ≠ .output) (cycle : Nat) : Undriven d (resolve s cycle d).state := by
  intro t ht
  apply ((attempted_resolve h hs hrole cycle).lengthens.signals ht).imp_right
  intro hstage i formal hdriver
  simp [Signal.isStage, hdriver] at hstage

theorem undriven_carry {s : Signal} (h : d.Sound) {text : String} (hdriver : s.driver = .expr text)
    (cycle : Nat) : (carry s cycle).wp (fun _ d' => Undriven d d') (fun _ d' => Undriven d d') d := by
  unfold carry
  simp only [wp_bind, wp_declare, wp_modify]
  refine ⟨fun _ => undriven_refl d, fun hfree => ?_⟩
  have hempty : d.stages d.netlist.size = #[] :=
    h.stages_of_none (Netlist.signal?_eq_none (Nat.le_refl _))
  have hwritten : ∀ r depth, (held s).driver ≠ .stage r depth := by simp [held, hdriver]
  have hsound := (h.declare hfree hwritten).setStem hempty s.name
  have hheld : Undriven d { d with netlist := d.netlist.add (held s) } :=
    undriven_declare (by simp [held, hdriver])
  have hin := Netlist.signal?_add_size (n := d.netlist) (held s)
  have hasked := undriven_resolve hsound (s := ⟨held s, d.netlist.size⟩) hin (by simp [held]) cycle
  refine wp_of_result.mono ?_ ?_
  · rintro last d' ⟨-, rfl⟩
    exact hheld.trans hasked
  · rintro e d' ⟨-, rfl⟩
    exact hheld.trans hasked

/-! ## Calls that place no copy -/

section Calls

variable (h : op.Sound)
include h

theorem wp_read_undriven (name : String) (cycle : Nat) :
    (read name cycle).wp (fun _ op' => Undriven op.flow op'.flow)
      (fun _ op' => Undriven op.flow op'.flow) op := by
  unfold read
  rw [wp_bind, wp_find]
  refine ⟨fun s hfind => ?_, fun _ _ => undriven_refl _⟩
  obtain ⟨hs, -⟩ := h.flow.lawful.find_ok.mp hfind
  rw [wp_ite]
  refine ⟨fun _ => undriven_refl _, fun hrole => ?_⟩
  have hasked := undriven_resolve h.flow hs hrole cycle
  rw [wp_bind, wp_onFlow]
  refine wp_of_result.mono ?_ ?_
  · rintro id d' ⟨-, rfl⟩
    exact hasked
  · rintro e d' ⟨-, rfl⟩
    exact hasked

theorem wp_consume_undriven (name : String) :
    (consume name).wp (fun _ op' => Undriven op.flow op'.flow)
      (fun _ op' => Undriven op.flow op'.flow) op := by
  unfold consume
  rw [wp_bind, wp_get, wp_bind]
  exact (wp_read_undriven h name op.timeline.cycle).mono (fun _ _ hop' => hop') fun _ _ hop' => hop'

theorem wp_expose_undriven {out : OutputPort} (hout : out ∈ op.outputs) (depth : Nat) :
    (expose depth out).wp (fun _ op' => Undriven op.flow op'.flow)
      (fun _ op' => Undriven op.flow op'.flow) op := by
  obtain ⟨s, text, hs, hdriver⟩ := h.outputs out hout
  unfold expose
  rw [wp_bind, wp_get]
  simp only [hs, wp_ite]
  refine ⟨fun _ => undriven_refl _, fun _ => ?_⟩
  rw [wp_bind, wp_onFlow]
  exact (undriven_carry h.flow hdriver depth).mono (fun _ _ hd => hd) fun _ _ hd => hd

/-- Exposing the outputs leads from one operator with these outputs to another. -/
theorem wp_exposes_undriven (depth : Nat) :
    (forEach (expose depth) op.outputs.toList).wp (fun _ op' => Undriven op.flow op'.flow)
      (fun _ op' => Undriven op.flow op'.flow) op := by
  let P : Operator → Prop := fun op' =>
    op'.Sound ∧ op'.outputs = op.outputs ∧ Undriven op.flow op'.flow
  have hkeeps : (forEach (expose depth) op.outputs.toList).Keeps P := by
    apply keeps_forEach
    rintro out hout op' ⟨hsound, hsame, hundriven⟩
    have hout' : out ∈ op'.outputs := hsame ▸ Array.mem_toList_iff.mp hout
    apply ((wp_expose_asks hsound hout' depth).and (wp_expose_undriven hsound hout' depth)).mono
    · rintro _ op'' ⟨hadvances, hnew⟩
      exact ⟨hadvances.sound hsound, hadvances.outputs.trans hsame, hundriven.trans hnew⟩
    · rintro _ op'' ⟨hadvances, hnew⟩
      exact ⟨hadvances.sound hsound, hadvances.outputs.trans hsame, hundriven.trans hnew⟩
  exact (hkeeps op ⟨h, rfl, undriven_refl _⟩).mono (fun _ _ hop' => hop'.2.2)
    fun _ _ hop' => hop'.2.2

theorem wp_moves_undriven (lib : Library) (hmoves : MovesTimeline c) :
    (execute lib c).wp (fun _ op' => Undriven op.flow op'.flow)
      (fun _ op' => Undriven op.flow op'.flow) op := by
  apply ((performed_execute h lib c).and wp_of_result).mono
  · rintro answer op' ⟨hperformed, -⟩
    have hflow : op'.flow = op.flow := by
      cases hmoves <;> cases hperformed with
      | timeline _ moved => exact moved.flow
    exact hflow ▸ undriven_refl _
  · rintro e op' ⟨-, herror, rfl⟩
    rw [execute_failed hmoves herror]
    exact undriven_refl _

/-- Whether it succeeds or fails, a call that places no copy declares no signal of one. -/
theorem wp_execute_undriven (lib : Library) (hc : ¬ Places c) :
    (execute lib c).wp (fun _ op' => Undriven op.flow op'.flow)
      (fun _ op' => Undriven op.flow op'.flow) op := by
  have hdeclares : ∀ {name role clocking width driver} {Q : SignalId → Operator → Prop},
      (∀ i formal, driver ≠ .inst i formal) →
      (∀ id op', Undriven op.flow op'.flow → Q id op') →
      (declareHere name role clocking width driver).wp Q
        (fun _ op' => Undriven op.flow op'.flow) op :=
    fun hdriver hQ => wp_declareHere.mpr (wp_declare.mpr
      ⟨fun _ => undriven_refl _, fun _ => hQ _ _ (undriven_declare hdriver)⟩)
  cases c with
  | input name width => exact wp_bind.mpr (wp_bind.mpr (hdeclares (by simp) fun _ _ hop' => hop'))
  | declare name width clocking text =>
      exact wp_bind.mpr (hdeclares (by simp) fun _ _ hop' => hop')
  | output name width text =>
      exact wp_bind.mpr (wp_bind.mpr (hdeclares (by simp) fun _ _ hop' => hop'))
  | consume name => exact wp_map.mpr (wp_consume_undriven h name)
  | consumeField name field =>
      refine wp_map.mpr (wp_bind.mpr (wp_find.mpr ⟨fun s _ => ?_, fun _ _ => undriven_refl _⟩))
      split
      · exact undriven_refl _
      · exact wp_bind.mpr (wp_consume_undriven h name)
  | instantiate sub name wiring => exact absurd (.intro sub name wiring) hc
  | finish =>
      simp only [execute, finish, wp_bind, wp_get, wp_ofExcept]
      apply (wp_exposes_undriven h op.exposure).mono
      · intro outputs op' hop'
        refine ⟨fun schedule _ => ?_, fun _ _ => hop'⟩
        have hreports : (forEach (Action.report : Event → Action Fault Operator Unit)
            op'.unusedOutputs).Keeps fun op'' => op''.flow = op'.flow :=
          keeps_forEach fun e _ => keeps_report e
        apply (hreports op' rfl).mono
        · intro _ op'' hflow
          show Undriven op.flow op''.flow
          exact hflow ▸ hop'
        · intro _ op'' hflow
          exact hflow ▸ hop'
      · exact fun _ _ hop' => hop'
  | setCycle cycle => exact wp_moves_undriven h lib (.setCycle cycle)
  | advance => exact wp_moves_undriven h lib .advance
  | accrue delay => exact wp_moves_undriven h lib (.accrue delay)
  | setCriticalPath delay => exact wp_moves_undriven h lib (.setCriticalPath delay)
  | jump name => exact wp_moves_undriven h lib (.jump name)
  | join name => exact wp_moves_undriven h lib (.join name)

end Calls

/-! ## Scripts -/

theorem undriven_step (h : op.Sound) {entry : Library × Call} (hentry : ¬ Places entry.2) :
    Undriven op.flow (op.step entry).flow := by
  unfold step
  cases hopen : op.isFinished with
  | true =>
      rw [(perform_of_closed hopen).2]
      exact undriven_refl _
  | false =>
      rw [(perform_of_open hopen).2]
      exact (wp_execute_undriven h entry.1 hentry).state

theorem instances_step (h : op.Sound) {entry : Library × Call} (hentry : ¬ Places entry.2) :
    (op.step entry).instances = op.instances := by
  rcases placement_of_step h entry with hsame | ⟨sub, name, wiring, inst, hcall, -⟩
  · exact hsame
  · exact absurd (hcall ▸ .intro sub name wiring) hentry

theorem Placement.listed {sub : Handle} {name : String} {wiring : Wiring} {inst : Instance}
    (h : Placement lib sub name wiring op op' inst) (hop : op.Listed) : op'.Listed := by
  intro s i formal hs hdriver
  rcases h.signals hs with hold | hstage | ⟨-, formal', hdriver', hin⟩
  · obtain ⟨inst', hi, hout⟩ := hop s i formal hold hdriver
    exact ⟨inst', h.instances_kept hi, hout⟩
  · simp [Signal.isStage, hdriver] at hstage
  · rw [hdriver'] at hdriver
    cases hdriver
    refine ⟨inst, ?_, hin⟩
    rw [h.instances, h.id_eq]
    exact Array.getElem?_push_size

theorem Listed.step (h : op.Listed) (hop : op.Sound) {entry : Library × Call}
    (hentry : Places entry.2 → op.Succeeds entry) : (op.step entry).Listed := by
  by_cases hplaces : Places entry.2
  · have hperformed := performed_of_succeeds hop (hentry hplaces)
    obtain ⟨lib, c⟩ := entry
    cases hplaces with
    | intro sub name wiring =>
        cases hperformed with
        | timeline moves => cases moves
        | instantiate _ _ _ inst placement => exact placement.listed h
  · intro s i formal hs hdriver
    rw [instances_step hop hplaces]
    rcases undriven_step hop hplaces s hs with hold | hnew
    · exact h s i formal hold hdriver
    · exact absurd hdriver (hnew i formal)

theorem listed_after (h : op.Listed) (hop : op.Sound) {script : Script}
    (hscript : op.CopiesSucceed script) : (op.after script).Listed := by
  induction script generalizing op with
  | nil => exact h
  | cons entry script ih =>
      exact ih (h.step hop hscript.1) (evolves_step hop entry).1 hscript.2

theorem listed_blank (handle : Handle) (name : String) (period : Float) (pipelined : Bool) :
    (blank handle name period pipelined).Listed := by
  intro s i formal hs
  simp [blank, Netlist.signal?] at hs

end Retime.Operator
