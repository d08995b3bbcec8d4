import Retime.Proofs.Timeline.Calls

/-! # What a call stops with

A call on an operator that is not finished stops for something that is wrong with the
description, or for a delay. The pieces of a call that do not place work in time stop for
the former alone.
-/

namespace Retime

/-- What a value can be refused for that is asked for by its name. -/
inductive Fault.OfReading : Fault → Prop where
  | signals {e : Fault} (h : Dataflow.OfSignals e) : OfReading e
  | unknownSignal (name : String) : OfReading (.unknownSignal name)
  | outputNotReadable (name : String) : OfReading (.outputNotReadable name)

/-- What can be wrong with a description, delays apart. -/
inductive Fault.OfDescription : Fault → Prop where
  | signals {e : Fault} (h : Dataflow.OfSignals e) : OfDescription e
  | unknownSignal (name : String) : OfDescription (.unknownSignal name)
  | outputNotReadable (name : String) : OfDescription (.outputNotReadable name)
  | invalidField (name : String) (field : FloatField) : OfDescription (.invalidField name field)
  | duplicateInstance (name : String) : OfDescription (.duplicateInstance name)
  | unfinishedSubOperator (name : String) : OfDescription (.unfinishedSubOperator name)
  | unknownPort (operator : String) (direction : Direction) (formal : String) :
      OfDescription (.unknownPort operator direction formal)
  | unboundPort (operator formal : String) : OfDescription (.unboundPort operator formal)
  | portAlreadyBound (formal : String) : OfDescription (.portAlreadyBound formal)
  | widthMismatch (formal actual : String) (expected found : Nat) :
      OfDescription (.widthMismatch formal actual expected found)
  | cycleOverflow (cycle offset : Nat) : OfDescription (.cycleOverflow cycle offset)

/-- What a call on an open operator can stop with. -/
inductive Fault.OfCall : Fault → Prop where
  | description {e : Fault} (h : e.OfDescription) : OfCall e
  | unreachableTiming (delay period : Float) : OfCall (.unreachableTiming delay period)

open Fault

variable {e : Fault}

theorem Fault.OfReading.description (h : e.OfReading) : e.OfDescription := by
  cases h with
  | signals h => exact .signals h
  | unknownSignal name => exact .unknownSignal name
  | outputNotReadable name => exact .outputNotReadable name

theorem Netlist.ofReading_find {n : Netlist} {name : String} (h : n.find name = .error e) :
    e.OfReading := by
  unfold find at h
  split at h
  · cases h
  · cases h
    exact .unknownSignal name

namespace Wiring

theorem ofDescription_checkFormals {itf : Interface} {direction : Direction} {ports : List Port}
    {formals seen : List String} (h : checkFormals itf direction ports seen formals = .error e) :
    e.OfDescription := by
  induction formals generalizing seen with
  | nil => cases h
  | cons formal formals ih =>
      unfold checkFormals at h
      split at h
      · cases h
        exact .unknownPort itf.name direction formal
      · split at h
        · cases h
          exact .portAlreadyBound formal
        · exact ih h

theorem ofDescription_check {wiring : Wiring} {itf : Interface} (h : wiring.check itf = .error e) :
    e.OfDescription := by
  simp only [check, bind, Except.bind] at h
  split at h
  next hinputs =>
    cases h
    exact ofDescription_checkFormals hinputs
  · split at h
    next houtputs =>
      cases h
      exact ofDescription_checkFormals houtputs
    · split at h
      next p _ =>
        cases h
        exact .unboundPort itf.name p.name
      · cases h

end Wiring

/-! ## Moves -/

namespace Timeline

theorem ofDescription_laterCycle {cycle offset : Nat} (h : laterCycle cycle offset = .error e) :
    e.OfDescription := by
  unfold laterCycle at h
  split at h
  · cases h
  · cases h
    exact .cycleOverflow cycle offset

theorem ofDescription_roomAfter {t : Timeline} {x : Float} {cycle : Nat}
    (h : t.roomAfter x cycle = .error e) : e.OfDescription := by
  fun_induction roomAfter t x cycle with
  | case1 cycle hcycle hroom => cases h
  | case2 cycle hcycle hroom ih => exact ih h
  | case3 cycle hcycle =>
      cases h
      exact .cycleOverflow cycle 1

theorem ofCall_accrue {t : Timeline} {x : Float} (h : t.accrue x = .error e) : e.OfCall := by
  unfold accrue at h
  split at h
  · cases h
    exact .unreachableTiming x t.period
  · split at h
    · cases hroom : t.roomAfter x t.cycle with
      | ok cycle =>
          rw [hroom] at h
          cases h
      | error e' =>
          rw [hroom] at h
          cases h
          exact .description (ofDescription_roomAfter hroom)
    · cases h

theorem ofCall_move {t : Timeline} {m : Move} (h : t.move m = .error e) : e.OfCall := by
  cases m with
  | enter cycle => cases h
  | jump cycle => cases h
  | join cycle => cases h
  | advance =>
      cases hlater : laterCycle t.cycle 1 with
      | ok cycle => simp [move, advance, hlater, Except.map] at h
      | error e' =>
          obtain rfl : e' = e := by simpa [move, advance, hlater, Except.map] using h
          exact .description (ofDescription_laterCycle hlater)
  | accrue x =>
      cases haccrue : t.accrue x with
      | ok r => simp [move, haccrue, Except.map] at h
      | error e' =>
          obtain rfl : e' = e := by simpa [move, haccrue, Except.map] using h
          exact ofCall_accrue haccrue
  | arrive cycle x =>
      by_cases hadmits : t.Admits x
      · simp [move, arrive, hadmits] at h
      · obtain rfl : Fault.unreachableTiming x t.period = e := by
          simpa [move, arrive, hadmits] using h
        exact .unreachableTiming x t.period
  | setCriticalPath x =>
      by_cases hadmits : t.Admits x
      · simp [move, setCriticalPath, hadmits] at h
      · obtain rfl : Fault.unreachableTiming x t.period = e := by
          simpa [move, setCriticalPath, hadmits] using h
        exact .unreachableTiming x t.period

end Timeline

namespace Operator

open Retime.Action Timeline

variable {op : Operator} {lib : Library} {wiring : Wiring}

/-! ## The pieces of calls -/

theorem faults_onFlow {α : Type} {m : Action Fault Dataflow α} (hm : m.Faults Dataflow.OfSignals) :
    (onFlow m).Faults OfDescription :=
  (faults_zoom hm).mono fun _ => .signals

theorem faults_find (name : String) : (find name).Faults OfReading :=
  faults_bind faults_get fun _ => faults_ofExcept fun _ => Netlist.ofReading_find

theorem faults_declareHere (name : String) (role : Role) (clocking : Clocking) (width : Width)
    (driver : Driver) : (declareHere name role clocking width driver).Faults OfDescription :=
  faults_bind faults_get fun _ => faults_onFlow (Dataflow.faults_declare _)

theorem faults_read (name : String) (cycle : Nat) : (read name cycle).Faults OfReading := by
  apply faults_bind (faults_find name)
  intro s
  apply faults_ite (faults_stop (.outputNotReadable name))
  apply faults_bind ((faults_zoom (Dataflow.faults_resolve s cycle)).mono fun _ => .signals)
  intro id
  exact faults_bind (faults_modify _) fun _ => faults_pure _

theorem faults_consume (name : String) : (consume name).Faults OfReading := by
  apply faults_bind faults_get
  intro op
  exact faults_bind (faults_read name _) fun _ => faults_bind faults_get fun _ => faults_pure _

theorem faults_consumeField (name : String) (field : FloatField) :
    (consumeField name field).Faults OfDescription := by
  apply faults_bind ((faults_find name).mono fun _ => OfReading.description)
  intro s
  split
  · exact faults_stop (.invalidField name field)
  · apply faults_bind ((faults_consume name).mono fun _ => OfReading.description)
    exact fun _ => faults_pure _

theorem faults_connectInput (itf : Interface) (cycle : Nat) (p : Port) :
    (connectInput itf wiring cycle p).Faults OfDescription := by
  unfold connectInput
  split
  · exact faults_stop (.unboundPort itf.name p.name)
  · exact faults_pure _
  next name _ =>
    apply faults_bind ((faults_find name).mono fun _ => OfReading.description)
    intro s
    apply faults_ite (faults_stop (.widthMismatch _ _ _ _))
    apply faults_bind ((faults_read name cycle).mono fun _ => OfReading.description)
    exact fun _ => faults_pure _

theorem ofDescription_subInterface {sub : Handle} {e : Fault}
    (h : op.subInterface lib sub = .error e) : e.OfDescription := by
  unfold subInterface at h
  split at h
  · cases h
    exact .unfinishedSubOperator op.name
  · unfold Library.interface at h
    split at h
    · cases h
      exact .unfinishedSubOperator _
    · split at h
      · cases h
        exact .unfinishedSubOperator _
      · cases h

theorem faults_onTimeline (m : Move) : (onTimeline (·.move m)).Faults OfCall := by
  apply faults_bind faults_get
  intro op
  exact faults_bind (faults_ofExcept fun _ => ofCall_move) fun _ => faults_modify _

theorem faults_accrue (delay : Float) : (accrue delay).Faults OfCall := by
  apply faults_bind faults_get
  intro op
  apply faults_bind (faults_ofExcept fun _ => ofCall_accrue)
  rintro ⟨accrual, t⟩
  cases accrual with
  | fitted => exact faults_modify _
  | cut => exact faults_bind (faults_report _) fun _ => faults_modify _

theorem faults_connectOutput (id cycle : Nat) (p : Port) :
    (connectOutput wiring id cycle p).Faults OfCall := by
  unfold connectOutput
  split
  · exact faults_pure _
  · apply faults_bind ((faults_onFlow (Dataflow.faults_declare _)).mono fun _ => .description)
    intro signal
    exact faults_bind (faults_onTimeline (.arrive cycle p.delay)) fun _ => faults_pure _

theorem ofCall_layOut {depth : Nat} {outputs : List ExposedOutput} {e : Fault}
    (h : op.layOut depth outputs = .error e) : e.OfCall := by
  unfold layOut at h
  dsimp only at h
  split at h
  next slice _ =>
    cases h
    exact .unreachableTiming slice.peak op.timeline.period
  · cases h

/-! ## Whole calls -/

/-- A copy is turned down for what is wrong with its description. -/
theorem ofDescription_admission {sub : Handle} {name : String}
    (h : op.admission lib sub name wiring = .error e) : e.OfDescription := by
  unfold admission at h
  split at h
  · cases h
    exact .duplicateInstance name
  cases hitf : op.subInterface lib sub with
  | error e' =>
      rw [hitf] at h
      cases h
      exact ofDescription_subInterface hitf
  | ok itf =>
  cases hcheck : wiring.check itf with
  | error e' =>
      simp only [hitf, hcheck, bind, Except.bind] at h
      cases h
      exact Wiring.ofDescription_check hcheck
  | ok _ =>
  cases hlater : laterCycle op.timeline.cycle itf.depth with
  | error e' =>
      simp only [hitf, hcheck, hlater, bind, Except.bind] at h
      cases h
      exact ofDescription_laterCycle hlater
  | ok cycle =>
      simp only [hitf, hcheck, hlater, bind, Except.bind] at h
      cases h

theorem faults_instantiate (sub : Handle) (name : String) (wiring : Wiring) :
    (instantiate lib sub name wiring).Faults OfCall := by
  intro op
  refine wp_instantiate_of (fun itf cycle _ => ?_) fun e he =>
    .description (ofDescription_admission he)
  have hinputs : (forEach (connectInput itf wiring op.timeline.cycle) itf.inputs).Faults OfCall :=
    faults_forEach fun p _ => (faults_connectInput itf _ p).mono fun _ => .description
  have houtputs : (forEach (connectOutput wiring op.instances.size cycle) itf.outputs).Faults
      OfCall := faults_forEach fun p _ => faults_connectOutput _ cycle p
  refine (hinputs op).mono (fun inputs op₁ _ => ?_) fun _ _ he => he
  exact (houtputs op₁).mono (fun _ _ _ => trivial) fun _ _ he => he

theorem faults_finish : finish.Faults OfCall := by
  apply faults_bind faults_get
  intro op
  apply faults_bind faults_get
  intro _
  apply faults_bind (faults_forEach fun out _ =>
    (faults_expose op.exposure out).mono fun _ h => .description (.signals h))
  intro outputs
  apply faults_bind faults_get
  intro op'
  apply faults_bind (faults_ofExcept fun _ => ofCall_layOut)
  intro schedule
  apply faults_bind (faults_forEach fun e _ => faults_report e)
  intro _
  exact faults_bind (faults_report _) fun _ => faults_modify _

/-- A call on an open operator stops for the description or for a delay. -/
theorem faults_execute (lib : Library) (c : Call) : (execute lib c).Faults OfCall := by
  have hdescribed : ∀ {α : Type} {m : Action Fault Operator α}, m.Faults OfDescription →
      m.Faults OfCall := fun hm => hm.mono fun _ => .description
  have hread : ∀ {α : Type} {m : Action Fault Operator α}, m.Faults OfReading →
      m.Faults OfCall := fun hm => hdescribed (hm.mono fun _ => OfReading.description)
  cases c with
  | input name width =>
      apply faults_bind
      · exact faults_bind (hdescribed (faults_declareHere _ _ _ _ _)) fun _ => faults_modify _
      · exact fun _ => faults_pure _
  | declare name width clocking expr =>
      exact faults_bind (hdescribed (faults_declareHere _ _ _ _ _)) fun _ => faults_pure _
  | output name width expr =>
      apply faults_bind
      · exact faults_bind (hdescribed (faults_declareHere _ _ _ _ _)) fun _ => faults_modify _
      · exact fun _ => faults_pure _
  | consume name => exact hread (faults_map (faults_consume name))
  | consumeField name field => exact hdescribed (faults_map (faults_consumeField name field))
  | setCycle cycle => exact faults_bind (faults_onTimeline (.enter cycle)) fun _ => faults_pure _
  | advance => exact faults_bind (faults_onTimeline .advance) fun _ => faults_pure _
  | accrue delay => exact faults_bind (faults_accrue delay) fun _ => faults_pure _
  | setCriticalPath delay =>
      exact faults_bind (faults_onTimeline (.setCriticalPath delay)) fun _ => faults_pure _
  | jump name =>
      apply faults_bind (hread (faults_find name))
      intro s
      exact faults_bind (faults_onTimeline (.jump s.cycle)) fun _ => faults_pure _
  | join name =>
      apply faults_bind (hread (faults_find name))
      intro s
      exact faults_bind (faults_onTimeline (.join s.cycle)) fun _ => faults_pure _
  | instantiate sub name wiring =>
      exact faults_bind (faults_instantiate sub name wiring) fun _ => faults_pure _
  | finish => exact faults_bind faults_finish fun _ => faults_pure _

end Operator

end Retime
