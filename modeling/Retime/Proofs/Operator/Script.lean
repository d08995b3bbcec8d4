import Retime.Operator.Call
import Retime.Proofs.Action

/-! # Scripts

A script is a list of calls, each with the library it is made in; clients that choose
a call by the answers to earlier ones are covered, since every script is considered.
What holds of a new operator and is kept by the execution of each call holds after
every script.
-/

namespace Retime

/-- Calls in their order, each with the library it is made in. -/
abbrev Script := List (Library × Call)

namespace Operator

/-- An operator on which nothing was called yet. -/
def blank (handle : Handle) (name : String) (period : Float) (pipelined : Bool) : Operator :=
  { handle, name, timeline := { period, pipelined } }

/-- What a call does once it is known that the operator is open. -/
def execute (lib : Library) : Call → Action Fault Operator (Option String)
  | .input name width => do addInput name width; return none
  | .declare name width clocking expr => do
    let _ ← declareHere name .internal clocking width (.expr expr)
    return none
  | .output name width expr => do addOutput name width expr; return none
  | .consume name => some <$> consume name
  | .consumeField name field => some <$> consumeField name field
  | .setCycle cycle => do onTimeline fun t => .ok (t.enter cycle); return none
  | .advance => do onTimeline (·.advance); return none
  | .accrue delay => do accrue delay; return none
  | .setCriticalPath delay => do onTimeline (·.setCriticalPath delay); return none
  | .jump name => do
    let s ← find name
    onTimeline fun t => .ok (t.jump s.cycle)
    return none
  | .join name => do
    let s ← find name
    onTimeline fun t => .ok (t.join s.cycle)
    return none
  | .instantiate sub name wiring => do instantiate lib sub name wiring; return none
  | .finish => do finish; return none

/-- Every call makes sure that the operator is open, and does nothing before. -/
theorem dispatch_eq (lib : Library) (c : Call) :
    dispatch lib c = (do ensureOpen; execute lib c) := by
  cases c <;> rfl

/-- The operator after a call, whether it succeeds or fails. -/
def step (op : Operator) (entry : Library × Call) : Operator :=
  (perform entry.1 entry.2 op).state

/-- The operator after all calls of a script. -/
def after (op : Operator) (script : Script) : Operator :=
  script.foldl step op

def Succeeds (op : Operator) (entry : Library × Call) : Prop :=
  ∃ answer, (perform entry.1 entry.2 op).result = .ok answer

/-- Every call of the script succeeds. -/
def Completes : Operator → Script → Prop
  | _, [] => True
  | op, entry :: script => op.Succeeds entry ∧ (op.step entry).Completes script

variable {op : Operator} {lib : Library} {c : Call}

@[simp] theorem after_nil : op.after [] = op :=
  rfl

@[simp] theorem after_cons {entry : Library × Call} {script : Script} :
    op.after (entry :: script) = (op.step entry).after script :=
  rfl

theorem after_append {script script' : Script} :
    op.after (script ++ script') = (op.after script).after script' :=
  List.foldl_append

theorem completes_append {script script' : Script} :
    op.Completes (script ++ script') ↔
      op.Completes script ∧ (op.after script).Completes script' := by
  induction script generalizing op with
  | nil => simp [Completes]
  | cons entry script ih => simp [Completes, ih, and_assoc]

/-! ## The pieces of calls -/

@[simp] theorem wp_onFlow {ε α : Type} {m : Action ε Dataflow α} {Q : α → Operator → Prop}
    {E : ε → Operator → Prop} :
    (onFlow m).wp Q E op ↔
      m.wp (fun a d => Q a { op with flow := d }) (fun e d => E e { op with flow := d })
        op.flow :=
  Iff.rfl

@[simp] theorem wp_onTimeline {ε : Type} {f : Timeline → Except ε Timeline}
    {Q : Unit → Operator → Prop} {E : ε → Operator → Prop} :
    (onTimeline f).wp Q E op ↔
      (∀ t, f op.timeline = .ok t → Q () { op with timeline := t }) ∧
        ∀ e, f op.timeline = .error e → E e op := by
  simp only [onTimeline, Action.wp_bind, Action.wp_get, Action.wp_ofExcept, Action.wp_modify]

@[simp] theorem wp_find {name : String} {Q : Signal → Operator → Prop}
    {E : Fault → Operator → Prop} :
    (find name).wp Q E op ↔
      (∀ s, op.flow.netlist.find name = .ok s → Q s op) ∧
        ∀ e, op.flow.netlist.find name = .error e → E e op := by
  simp only [find, Action.wp_bind, Action.wp_get, Action.wp_ofExcept]

@[simp] theorem wp_declareHere {name : String} {role : Role} {clocking : Clocking}
    {width : Width} {driver : Driver} {Q : SignalId → Operator → Prop}
    {E : Fault → Operator → Prop} :
    (declareHere name role clocking width driver).wp Q E op ↔
      (Dataflow.declare { name, role, clocking, width, cycle := op.timeline.cycle, driver }).wp
        (fun a d => Q a { op with flow := d }) (fun e d => E e { op with flow := d })
        op.flow := by
  simp only [declareHere, Action.wp_bind, Action.wp_get, wp_onFlow]

/-! ## Copies -/

/-- What an instantiation looks at before it connects anything: it is turned down, or finds the
interface of the copied operator and the cycle in which the copy delivers. -/
def admission (op : Operator) (lib : Library) (sub : Handle) (name : String) (wiring : Wiring) :
    Except Fault (Interface × Nat) :=
  if op.instances.any (·.name = name) then .error (.duplicateInstance name)
  else do
    let itf ← op.subInterface lib sub
    wiring.check itf
    let cycle ← laterCycle op.timeline.cycle itf.depth
    return (itf, cycle)

/-- A copy may be placed: its name is free, the copied operator has an interface, the wiring fits
its ports, and the copy delivers in `cycle`. -/
structure Admits (op : Operator) (lib : Library) (sub : Handle) (name : String)
    (wiring : Wiring) (itf : Interface) (cycle : Nat) : Prop where
  free : op.instances.any (·.name = name) = false
  interface : op.subInterface lib sub = .ok itf
  checked : wiring.check itf = .ok ()
  later : laterCycle op.timeline.cycle itf.depth = .ok cycle

section Copies

variable {sub : Handle} {name : String} {wiring : Wiring} {itf : Interface} {cycle : Nat}

theorem Admits.admission_eq (h : op.Admits lib sub name wiring itf cycle) :
    op.admission lib sub name wiring = .ok (itf, cycle) := by
  unfold admission
  rw [if_neg (by simp [h.free])]
  simp [h.interface, h.checked, h.later, bind, Except.bind, pure, Except.pure]

variable {Q : Unit → Operator → Prop} {E : Fault → Operator → Prop}

/-- Once it is admitted, a copy has its inputs connected, then its outputs, and is entered last.
A copy that is turned down changes nothing. -/
theorem wp_instantiate_of
    (hadmits : ∀ itf cycle, op.Admits lib sub name wiring itf cycle →
      (Action.forEach (connectInput itf wiring op.timeline.cycle) itf.inputs).wp
        (fun inputs => (Action.forEach (connectOutput wiring op.instances.size cycle)
            itf.outputs).wp
          (fun outputs op' => Q () { op' with
            instances := op'.instances.push ⟨op.instances.size, name, sub, itf, op.timeline.cycle,
              cycle, inputs, outputs⟩ }) E) E op)
    (hturned : ∀ e, op.admission lib sub name wiring = .error e → E e op) :
    (instantiate lib sub name wiring).wp Q E op := by
  unfold instantiate
  rw [Action.wp_bind, Action.wp_get, Action.wp_ite]
  refine ⟨fun htaken => hturned _ (if_pos htaken), fun hfree => ?_⟩
  have hadmission : op.admission lib sub name wiring = _ := if_neg hfree
  simp only [Action.wp_bind, Action.wp_ofExcept, Action.wp_report, Action.wp_modify]
  refine ⟨fun itf hitf => ⟨fun _ hcheck => ⟨fun cycle hlater => ?_, fun e he => hturned e ?_⟩,
    fun e he => hturned e ?_⟩, fun e he => hturned e ?_⟩
  · exact hadmits itf cycle ⟨by simpa using hfree, hitf, hcheck, hlater⟩
  · simp [hadmission, hitf, hcheck, he, bind, Except.bind]
  · simp [hadmission, hitf, he, bind, Except.bind]
  · simp [hadmission, he, bind, Except.bind]

theorem Admits.wp_instantiate (h : op.Admits lib sub name wiring itf cycle)
    (hplaced : (Action.forEach (connectInput itf wiring op.timeline.cycle) itf.inputs).wp
      (fun inputs => (Action.forEach (connectOutput wiring op.instances.size cycle)
          itf.outputs).wp
        (fun outputs op' => Q () { op' with
          instances := op'.instances.push ⟨op.instances.size, name, sub, itf, op.timeline.cycle,
            cycle, inputs, outputs⟩ }) E) E op) :
    (instantiate lib sub name wiring).wp Q E op := by
  apply wp_instantiate_of
  · intro itf' cycle' h'
    obtain rfl := Except.ok.inj (h.interface.symm.trans h'.interface)
    obtain rfl := Except.ok.inj (h.later.symm.trans h'.later)
    exact hplaced
  · intro e he
    rw [h.admission_eq] at he
    cases he

end Copies

/-! ## Open and closed -/

theorem dispatch_of_closed (h : op.isFinished = true) :
    dispatch lib c op = { result := .error (.operatorClosed op.name), state := op } := by
  rw [dispatch_eq]
  simp only [ensureOpen, bind, Action.bind, Action.get, Action.stop, h, if_true]
  rfl

theorem dispatch_of_open (h : op.isFinished = false) : dispatch lib c op = execute lib c op := by
  rw [dispatch_eq]
  simp [ensureOpen, bind, Action.bind, Action.get, pure, Action.pure, h]

theorem wp_dispatch {Q : Option String → Operator → Prop} {E : Fault → Operator → Prop} :
    (dispatch lib c).wp Q E op ↔ (op.isFinished = true → E (.operatorClosed op.name) op) ∧
      (op.isFinished = false → (execute lib c).wp Q E op) := by
  cases h : op.isFinished with
  | true =>
      unfold Action.wp
      simp [dispatch_of_closed h]
  | false =>
      unfold Action.wp
      simp [dispatch_of_open h]

/-- A closed operator refuses a call in silence and stays as it is. -/
theorem perform_eq_of_closed (h : op.isFinished = true) (lib : Library) (c : Call) :
    perform lib c op =
      { result := .error ⟨op.name, c.text, .operatorClosed op.name⟩, state := op } := by
  simp only [perform, bind, Action.bind, Action.get, Action.mapError, dispatch_of_closed h]
  rfl

theorem perform_of_closed (h : op.isFinished = true) :
    (perform lib c op).result = .error ⟨op.name, c.text, .operatorClosed op.name⟩ ∧
      (perform lib c op).state = op := by
  rw [perform_eq_of_closed h]
  exact ⟨rfl, rfl⟩

/-- An open operator executes a call, and attributes what fails to it. -/
theorem perform_of_open (h : op.isFinished = false) :
    (perform lib c op).result =
        ((execute lib c op).result.mapError (Failure.mk op.name c.text)) ∧
      (perform lib c op).state = (execute lib c op).state := by
  simp [perform, bind, Action.bind, Action.get, Action.mapError, dispatch_of_open h]

/-- A call that fails on an open operator was executed and stopped with the fault. -/
theorem execute_of_failed (hopen : op.isFinished = false) {failure : Failure}
    (h : (perform lib c op).result = .error failure) :
    (execute lib c op).result = .error failure.fault := by
  rw [(perform_of_open hopen).1] at h
  cases hresult : (execute lib c op).result with
  | ok answer =>
      rw [hresult] at h
      cases h
  | error fault =>
      rw [hresult] at h
      cases h
      rfl

/-! ## What scripts keep -/

/-- What the execution of every call keeps, be it successful or not, a step keeps. -/
theorem keeps_step {P : Operator → Prop}
    (hexecute : ∀ lib c, (execute lib c).Keeps P)
    (h : P op) (entry : Library × Call) : P (op.step entry) := by
  unfold step
  cases hopen : op.isFinished with
  | true =>
      rw [(perform_of_closed hopen).2]
      exact h
  | false =>
      rw [(perform_of_open hopen).2]
      exact (hexecute entry.1 entry.2 op h).state

theorem keeps_after {P : Operator → Prop}
    (hexecute : ∀ lib c, (execute lib c).Keeps P)
    (h : P op) (script : Script) : P (op.after script) := by
  induction script generalizing op with
  | nil => exact h
  | cons entry script ih => exact ih (keeps_step hexecute h entry)

/-- A call that succeeds was executed on an open operator. -/
theorem execute_of_succeeds {entry : Library × Call} (h : op.Succeeds entry) :
    op.isFinished = false ∧ op.step entry = (execute entry.1 entry.2 op).state ∧
      ∃ answer, (execute entry.1 entry.2 op).result = .ok answer := by
  obtain ⟨answer, hanswer⟩ := h
  cases hopen : op.isFinished with
  | true =>
      rw [(perform_of_closed hopen).1] at hanswer
      cases hanswer
  | false =>
      rw [(perform_of_open hopen).1] at hanswer
      refine ⟨rfl, (perform_of_open hopen).2, ?_⟩
      cases hresult : (execute entry.1 entry.2 op).result with
      | error fault =>
          rw [hresult] at hanswer
          cases hanswer
      | ok a => exact ⟨a, rfl⟩

/-- A call that is known not to stop succeeds. -/
theorem succeeds_of_wp {Q : Option String → Operator → Prop} (hopen : op.isFinished = false)
    (h : (execute lib c).wp Q (fun _ _ => False) op) :
    op.Succeeds (lib, c) ∧
      ∃ answer, (execute lib c op).result = .ok answer ∧ Q answer (op.step (lib, c)) := by
  obtain ⟨hresult, hstate⟩ := @perform_of_open op lib c hopen
  have hboth := h.and Action.wp_of_result
  unfold Action.wp at hboth
  split at hboth
  next answer hok =>
    refine ⟨⟨answer, ?_⟩, answer, hok, ?_⟩
    · rw [hresult, hok]
      rfl
    · rw [step, hstate]
      exact hboth.1
  next => exact hboth.1.elim

end Operator

end Retime
