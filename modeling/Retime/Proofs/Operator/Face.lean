import Retime.Proofs.Operator.Frame
import Retime.Verilog.OfOperator

/-! # Operators up to handles

Two operators have the same face if they differ in nothing but their own handles and those
of the operators they have copies of. Calls do not look at handles, except to find the
interface of the operator to be copied; so they do the same to operators with the same face,
and what is shown and written of these is the same.
-/

namespace Retime

open Retime.Action

/-- An instance without the handle of the operator it copies. -/
def Instance.face (inst : Instance) : Instance :=
  { inst with sub := 0 }

/-- Whether a call places a copy of another operator. -/
def Call.isCopy : Call → Bool
  | .instantiate .. => true
  | _ => false

namespace Operator

structure SameFace (op op' : Operator) : Prop where
  name : op.name = op'.name
  timeline : op.timeline = op'.timeline
  flow : op.flow = op'.flow
  inputs : op.inputs = op'.inputs
  outputs : op.outputs = op'.outputs
  instances : op.instances.map (·.face) = op'.instances.map (·.face)
  consumed : op.consumed = op'.consumed
  schedule : op.schedule = op'.schedule

/-- Two actions do the same to operators with the same face. -/
def Agree {ε α : Type} (m m' : Action ε Operator α) : Prop :=
  Couples SameFace m m'

variable {op op' : Operator}

theorem SameFace.refl (op : Operator) : SameFace op op :=
  ⟨rfl, rfl, rfl, rfl, rfl, rfl, rfl, rfl⟩

theorem SameFace.trans {op'' : Operator} (h : SameFace op op') (h' : SameFace op' op'') :
    SameFace op op'' :=
  ⟨h.name.trans h'.name, h.timeline.trans h'.timeline, h.flow.trans h'.flow,
    h.inputs.trans h'.inputs, h.outputs.trans h'.outputs, h.instances.trans h'.instances,
    h.consumed.trans h'.consumed, h.schedule.trans h'.schedule⟩

/-! ## Instances without handles -/

section Instances

variable (h : SameFace op op')
include h

theorem SameFace.map {β : Type} {f : Instance → β} (hf : ∀ inst, f inst.face = f inst) :
    op.instances.toList.map f = op'.instances.toList.map f := by
  have hsame := congrArg (fun instances => instances.toList.map f) h.instances
  simpa [Function.comp_def, hf] using hsame

theorem SameFace.any {p : Instance → Bool} (hp : ∀ inst, p inst.face = p inst) :
    op.instances.any p = op'.instances.any p := by
  have hsame := congrArg (·.any p) h.instances
  simpa [Array.any_map, Function.comp_def, hp] using hsame

theorem SameFace.size : op.instances.size = op'.instances.size := by
  have hsame := congrArg Array.size h.instances
  simpa using hsame

theorem SameFace.getElem? (i : Nat) :
    (op.instances[i]?).map (·.face) = (op'.instances[i]?).map (·.face) := by
  rw [← Array.getElem?_map, ← Array.getElem?_map, h.instances]

theorem SameFace.push {inst inst' : Instance} (hinst : inst.face = inst'.face) :
    (op.instances.push inst).map (·.face) = (op'.instances.push inst').map (·.face) := by
  rw [Array.map_push, Array.map_push, h.instances, hinst]

theorem SameFace.exposure : op.exposure = op'.exposure := by
  unfold Operator.exposure
  rw [h.flow, h.outputs, h.map fun _ => rfl]

theorem SameFace.layOut (depth : Nat) (outputs : List ExposedOutput) :
    op.layOut depth outputs = op'.layOut depth outputs := by
  have hslices : op.slices depth = op'.slices depth := by
    funext realignments
    unfold slices lastCycle
    rw [h.flow, h.timeline, h.map fun _ => rfl, h.map fun _ => rfl]
  unfold Operator.layOut
  rw [hslices, h.flow, h.timeline, h.any fun _ => rfl]

theorem SameFace.unusedOutputs : op.unusedOutputs = op'.unusedOutputs := by
  unfold Operator.unusedOutputs
  rw [List.flatMap_def, List.flatMap_def, h.name, h.consumed, h.map fun _ => rfl]

end Instances

/-! ## The pieces of calls -/

section Agree

variable {ε α : Type}

theorem agree_onFlow (m : Action ε Dataflow α) : Agree (onFlow m) (onFlow m) := by
  intro op op' h
  show (m op.flow).result = (m op'.flow).result ∧ _
  rw [h.flow]
  exact ⟨rfl, { h with flow := congrArg (fun flow => (m flow).state) h.flow }⟩

theorem agree_onTimeline (f : Timeline → Except ε Timeline) :
    Agree (onTimeline f) (onTimeline f) := by
  apply couples_get
  intro op op' h
  rw [h.timeline]
  exact (couples_ofExcept _).bind fun timeline => couples_modify fun _ _ h => { h with timeline := rfl }

end Agree

theorem agree_find (name : String) : Agree (find name) (find name) := by
  apply couples_get
  intro op op' h
  rw [h.flow]
  exact couples_ofExcept _

theorem agree_declareHere (name : String) (role : Role) (clocking : Clocking) (width : Width)
    (driver : Driver) :
    Agree (declareHere name role clocking width driver)
      (declareHere name role clocking width driver) := by
  apply couples_get
  intro op op' h
  dsimp only
  rw [h.timeline]
  exact agree_onFlow _

theorem agree_read (name : String) (cycle : Nat) : Agree (read name cycle) (read name cycle) := by
  refine (agree_find name).bind fun s => (couples_stop _).ite ((agree_onFlow _).bind fun id => ?_)
  refine Couples.bind (couples_modify fun op op' h => ?_) fun _ => couples_pure _
  exact { h with consumed := congrArg (·.insert s.id) h.consumed }

theorem agree_consume (name : String) : Agree (consume name) (consume name) := by
  apply couples_get
  intro op op' h
  rw [h.timeline]
  apply (agree_read name _).bind
  intro id
  apply couples_get
  intro op op' h
  rw [h.flow]
  exact couples_pure _

theorem agree_consumeField (name : String) (field : FloatField) :
    Agree (consumeField name field) (consumeField name field) := by
  apply (agree_find name).bind
  intro s
  split
  · exact couples_stop _
  · exact (agree_consume name).bind fun _ => couples_pure _

theorem agree_accrue (delay : Float) : Agree (accrue delay) (accrue delay) := by
  apply couples_get
  intro op op' h
  dsimp only
  rw [h.timeline, h.name]
  apply (couples_ofExcept _).bind
  rintro ⟨accrual, timeline⟩
  have hmodify : Agree (modify fun op : Operator => { op with timeline } : Action Fault Operator Unit)
      (modify fun op => { op with timeline }) := couples_modify fun _ _ h => { h with timeline := rfl }
  cases accrual with
  | fitted => exact hmodify
  | cut => exact (couples_report _).bind fun _ => hmodify

theorem agree_connectInput (itf : Interface) (wiring : Wiring) (cycle : Nat) (formal : Port) :
    Agree (connectInput itf wiring cycle formal) (connectInput itf wiring cycle formal) := by
  unfold connectInput
  split
  · exact couples_stop _
  · exact couples_pure _
  next name _ =>
    refine (agree_find name).bind fun s => (couples_stop _).ite ?_
    exact (agree_read name cycle).bind fun _ => couples_pure _

theorem agree_connectOutput (wiring : Wiring) (id cycle : Nat) (formal : Port) :
    Agree (connectOutput wiring id cycle formal) (connectOutput wiring id cycle formal) := by
  unfold connectOutput
  split
  · exact couples_pure _
  · exact (agree_onFlow _).bind fun _ => (agree_onTimeline _).bind fun _ => couples_pure _

theorem agree_expose (depth : Nat) (out : OutputPort) :
    Agree (expose depth out) (expose depth out) := by
  apply couples_get
  intro op op' h
  dsimp only
  rw [h.flow]
  split
  · exact couples_pure _
  · exact (couples_pure _).ite ((agree_onFlow _).bind fun _ => couples_pure _)

/-! ## Whole calls -/

theorem agree_finish : Agree finish finish := by
  apply couples_get
  intro op op' h
  dsimp only
  rw [h.exposure]
  apply couples_get
  intro op op' h
  rw [h.outputs]
  apply (couples_forEach (agree_expose _) _).bind
  intro outputs
  apply couples_get
  intro op op' h
  rw [h.layOut, h.unusedOutputs, h.name, h.size]
  refine (couples_ofExcept _).bind fun schedule => (couples_forEach couples_report _).bind fun _ => ?_
  exact (couples_report _).bind fun _ => couples_modify fun _ _ h => { h with schedule := rfl }

/-- Operators that find the same interface for the operator to be copied. -/
theorem coupled_instantiate (h : SameFace op op') {lib lib' : Library} {sub sub' : Handle}
    (hitf : op.subInterface lib sub = op'.subInterface lib' sub') (name : String)
    (wiring : Wiring) :
    Coupled SameFace (instantiate lib sub name wiring) (instantiate lib' sub' name wiring) op op' := by
  apply coupled_get
  dsimp only
  rw [h.any fun _ => rfl, hitf, h.timeline, h.size, h.name]
  refine Couples.coupled ((couples_stop _).ite ((couples_ofExcept _).bind fun itf =>
    (couples_ofExcept _).bind fun _ => ?_)) h
  refine (couples_ofExcept _).bind fun cycle => ?_
  refine (couples_forEach (agree_connectInput itf wiring _) _).bind fun inputs => ?_
  refine (couples_forEach (agree_connectOutput wiring _ cycle) _).bind fun outputs => ?_
  refine (couples_report _).bind fun _ => couples_modify fun op₁ op₁' h₁ => ?_
  exact { h₁ with instances := h₁.push rfl }

/-- A call that places no copy does not depend on the library. -/
theorem agree_execute {c : Call} (hc : c.isCopy = false) (lib lib' : Library) :
    Agree (execute lib c) (execute lib' c) := by
  cases c with
  | input name width =>
      refine Couples.bind ((agree_declareHere _ _ _ _ _).bind fun id => ?_) fun _ => couples_pure _
      exact couples_modify fun _ _ h => { h with inputs := congrArg (·.push id) h.inputs }
  | declare name width clocking expr =>
      exact (agree_declareHere _ _ _ _ _).bind fun _ => couples_pure _
  | output name width expr =>
      refine Couples.bind ((agree_declareHere _ _ _ _ _).bind fun id => ?_) fun _ => couples_pure _
      refine couples_modify fun op op' h => { h with outputs := ?_ }
      rw [h.outputs, h.timeline]
  | consume name => exact (agree_consume name).map _
  | consumeField name field => exact (agree_consumeField name field).map _
  | setCycle cycle => exact (agree_onTimeline _).bind fun _ => couples_pure _
  | advance => exact (agree_onTimeline _).bind fun _ => couples_pure _
  | accrue delay => exact (agree_accrue delay).bind fun _ => couples_pure _
  | setCriticalPath delay => exact (agree_onTimeline _).bind fun _ => couples_pure _
  | jump name =>
      exact (agree_find name).bind fun s => (agree_onTimeline _).bind fun _ => couples_pure _
  | join name =>
      exact (agree_find name).bind fun s => (agree_onTimeline _).bind fun _ => couples_pure _
  | instantiate sub name wiring => cases hc
  | finish => exact agree_finish.bind fun _ => couples_pure _

/-- Calls that are executed alike are performed alike, if they are written alike. -/
theorem coupled_perform (h : SameFace op op') {lib lib' : Library} {c c' : Call}
    (htext : c.text = c'.text) (hexecute : Coupled SameFace (execute lib c) (execute lib' c') op op') :
    Coupled SameFace (perform lib c) (perform lib' c') op op' := by
  apply coupled_get
  have hsame : op.isFinished = op'.isFinished := congrArg Option.isSome h.schedule
  rw [h.name, htext]
  cases hopen : op'.isFinished with
  | true =>
      simp only [Coupled, Action.mapError, dispatch_of_closed hopen,
        dispatch_of_closed (hsame.trans hopen), h.name]
      exact ⟨trivial, h⟩
  | false =>
      simp only [Coupled, Action.mapError, dispatch_of_open hopen,
        dispatch_of_open (hsame.trans hopen)]
      exact ⟨congrArg (Except.mapError _) hexecute.1, hexecute.2⟩

/-! ## What is shown -/

section Shown

variable (h : SameFace op op')
include h

theorem SameFace.depth? : op.depth? = op'.depth? := by
  unfold Operator.depth?
  rw [h.schedule]

theorem SameFace.interface? : op.interface? = op'.interface? := by
  unfold Operator.interface? port?
  rw [h.name, h.flow, h.inputs, h.outputs, h.schedule]

theorem SameFace.copy (inst : Instance) : op.copy inst = op'.copy inst.face := by
  unfold Operator.copy signalName
  rw [h.flow]
  rfl

theorem SameFace.sliceItem? (slice : Slice) : op.sliceItem? slice = op'.sliceItem? slice := by
  have hassign : op.assign = op'.assign := by
    unfold assign signalName
    rw [h.flow]
  have hcopies : (slice.instances.filterMap (op.instances[·]?)).map (fun inst =>
        Verilog.Item.copy (op.copy inst)) =
      (slice.instances.filterMap (op'.instances[·]?)).map fun inst =>
        Verilog.Item.copy (op'.copy inst) := by
    rw [List.map_filterMap, List.map_filterMap]
    congr 1
    funext i
    have hshown : ∀ o : Option Instance, o.map (fun inst => Verilog.Item.copy (op.copy inst)) =
        (o.map (·.face)).map fun inst => Verilog.Item.copy (op'.copy inst) := by
      intro o
      rw [Option.map_map]
      congr 1
      funext inst
      exact congrArg Verilog.Item.copy (h.copy inst)
    rw [hshown, h.getElem? i, Option.map_map]
    rfl
  unfold Operator.sliceItem?
  rw [hassign, hcopies]

theorem SameFace.moduleOf (schedule : Schedule) : op.moduleOf schedule = op'.moduleOf schedule := by
  have hslices : op.sliceItem? = op'.sliceItem? := funext h.sliceItem?
  unfold Operator.moduleOf portDeclarations portDeclaration? netDeclarations registerBlocks
    registerBlock update reset signalName
  rw [hslices, h.name, h.flow, h.inputs, h.outputs]

theorem SameFace.toVerilog : op.toVerilog = op'.toVerilog := by
  have hmodule : op.moduleOf = op'.moduleOf := funext h.moduleOf
  unfold Operator.toVerilog toModule
  rw [h.schedule, hmodule, h.name]

end Shown

end Operator

end Retime
