import Mathlib.Logic.Function.Basic
import Retime.Proofs.Dataflow.Basic
import Retime.Proofs.Operator.Runs
import Retime.Proofs.Operator.Schedule

/-! # Meaning

What a description means, apart from all timing, and what its schedule does as a
synchronous circuit.

A description is read as a program without clock: a declaration binds a name to the value
of its expression, and an identifier that was consumed stands for the value that was asked
for. A schedule is read clock by clock: assignments hold in every clock, a register takes
over its source at the next clock, and an instance answers to its inputs as many clocks
later as it is deep.
-/

namespace Retime

open Retime.Action

variable {V : Type}

/-- What expressions, constants and copied operators compute. -/
structure Interpretation (V : Type) where
  /-- The identifiers that an expression reads. -/
  reads : String → List String
  expr : String → (String → V) → V
  /-- An expression depends on nothing but what it reads. -/
  expr_congr : ∀ text values values', (∀ x ∈ reads text, values x = values' x) →
    expr text values = expr text values'
  constant : String → V
  /-- What the instance of a name answers at an output, given the values at its inputs. -/
  block : String → String → List (String × V) → V

/-! ## Circuits -/

/-- The value on the right of an assignment, in one clock. -/
def Value.read (I : Interpretation V) (n : Netlist) (values : String → V) : Value → V
  | .expr text => I.expr text values
  | .signal id => values (n.name id)

/-- The value at a connected input, in one clock. -/
def Actual.read (I : Interpretation V) (n : Netlist) (values : String → V) : Actual → V
  | .signal id => values (n.name id)
  | .constant text => I.constant text

/-- `w` is a behaviour of the schedule, with the input streams `x`: it gives the value of
every signal in every clock. -/
structure Circuit (I : Interpretation V) (op : Operator) (schedule : Schedule)
    (x w : String → Nat → V) : Prop where
  input : ∀ id ∈ op.inputs, ∀ clock,
    w (op.flow.netlist.name id) clock = x (op.flow.netlist.name id) clock
  assign : ∀ a ∈ schedule.assignments, ∀ clock,
    w (op.flow.netlist.name a.target) clock = a.value.read I op.flow.netlist (w · clock)
  load : ∀ l ∈ schedule.loads, ∀ clock,
    w (op.flow.netlist.name l.target) (clock + 1) = w (op.flow.netlist.name l.source) clock
  block : ∀ slice ∈ schedule.slices, ∀ i ∈ slice.instances, ∀ inst,
    op.instances[i]? = some inst → ∀ formal id, (formal, some id) ∈ inst.outputs → ∀ clock,
      w (op.flow.netlist.name id) (clock + inst.interface.depth) =
        I.block inst.name formal
          (inst.inputs.map fun (f, actual) => (f, actual.read I op.flow.netlist (w · clock)))

/-! ## Programs -/

namespace Operator

/-- The name of the signal at the head of the delay line that a name belongs to. -/
def headName (op : Operator) (name : String) : String :=
  match op.flow.netlist.find name with
  | .ok s => (op.flow.netlist.root s).name
  | .error _ => name

/-- The identifier that a call asks for; a field is selected from it. -/
def identifier? (op : Operator) (c : Call) : Option String :=
  match c with
  | .consume name | .consumeField name _ => (consume name op).result.toOption
  | _ => none

/-- The value of what an input is connected to. -/
def sourceValue (I : Interpretation V) (op : Operator) (wiring : Wiring) (env : String → V)
    (formal : Port) : V :=
  match wiring.inputs.lookup formal.name with
  | some (.signal name) => env (op.headName name)
  | some (.constant text) => I.constant text
  | none => I.constant ""

/-- The value of the output that is connected to `signal`, if there is one. -/
def outputValue? (I : Interpretation V) (op : Operator) (itf : Interface) (name : String)
    (wiring : Wiring) (env : String → V) (signal : String) : Option V :=
  itf.outputs.findSome? fun formal =>
    if wiring.outputs.lookup formal.name = some signal then
      some (I.block name formal.name
        (itf.inputs.map fun p => (p.name, op.sourceValue I wiring env p)))
    else none

/-- The value of the output that is held under the name `signal`, if there is one. -/
def heldValue? (op : Operator) (env : String → V) (signal : String) : Option V :=
  op.outputs.toList.findSome? fun out =>
    match op.flow.netlist.signal? out.signal with
    | some s =>
      if s.cycle ≠ op.exposure ∧ Dataflow.stageName s.name 0 = signal then some (env s.name)
      else none
    | none => none

/-- What a call means: how it changes the values of names. Input values are given for the
cycle in which an input is declared. -/
def callMeaning (I : Interpretation V) (ins : String → Nat → V) (op : Operator)
    (entry : Library × Call) (env : String → V) : String → V :=
  match entry.2 with
  | .input name _ => Function.update env name (ins name op.timeline.cycle)
  | .declare name _ _ text => Function.update env name (I.expr text env)
  | .output name _ text => Function.update env name (I.expr text env)
  | .consume name | .consumeField name _ =>
    match (consume name op).result with
    | .ok identifier =>
      Function.update env identifier (env ((op.step entry).headName name))
    | .error _ => env
  | .instantiate sub name wiring =>
    match op.subInterface entry.1 sub with
    | .ok itf => fun signal =>
      ((op.step entry).outputValue? I itf name wiring env signal).getD (env signal)
    | .error _ => env
  | .finish => fun signal => (op.heldValue? env signal).getD (env signal)
  | _ => env

/-- What a script means. -/
def meaning (I : Interpretation V) (ins : String → Nat → V) :
    Operator → Script → (String → V) → String → V
  | _, [], env => env
  | op, entry :: script, env =>
    meaning I ins (op.step entry) script (op.callMeaning I ins entry env)

end Operator

/-- The expression that a call declares. -/
def Call.expr? : Call → Option String
  | .declare _ _ _ text => some text
  | .output _ _ text => some text
  | _ => none

namespace Operator

/-- Every identifier that an expression reads was asked for in the cycle in which the
expression is declared. What was granted before is given with its cycle. -/
def Disciplined (I : Interpretation V) :
    Operator → Script → List (Nat × String) → Prop
  | _, [], _ => True
  | op, entry :: script, granted =>
    (∀ text ∈ entry.2.expr?, ∀ x ∈ I.reads text, (op.timeline.cycle, x) ∈ granted) ∧
      Disciplined I (op.step entry) script
        ((op.identifier? entry.2).toList.map (op.timeline.cycle, ·) ++ granted)

/-- What a call asks for is granted to the calls after it. -/
theorem Disciplined.cons {I : Interpretation V} {op op' : Operator} {entry : Library × Call}
    {script : Script} {granted : List (Nat × String)} (h : op.Leads [entry] op')
    (hreads : ∀ text ∈ entry.2.expr?, ∀ x ∈ I.reads text, (op.timeline.cycle, x) ∈ granted)
    (hrest : op'.Disciplined I script
      ((op.identifier? entry.2).toList.map (op.timeline.cycle, ·) ++ granted)) :
    op.Disciplined I (entry :: script) granted :=
  ⟨hreads, by rwa [h.step_eq]⟩

/-! ## A delay by one clock -/

/-- Expressions that are identifiers. -/
def identifiers : Interpretation Nat where
  reads text := [text]
  expr text values := values text
  expr_congr _ _ _ h := h _ (List.mem_singleton_self _)
  constant _ := 0
  block _ _ _ := 0

/-- An input that is shown one clock later. -/
def delayScript (lib : Library) (width : Width) : Script :=
  [(lib, .input "a" width), (lib, .setCycle 1), (lib, .consume "a"),
    (lib, .output "y" width "a_d1"), (lib, .finish)]

/-- The operator that such a script leaves. -/
structure IsDelay (width : Width) (op : Operator) (schedule : Schedule) : Prop where
  signals : op.flow.netlist.signals =
    #[⟨⟨"a", .input, .combinational, width, 0, .port⟩, 0⟩,
      ⟨⟨"a_d1", .internal, .registered, width, 1, .stage 0 1⟩, 1⟩,
      ⟨⟨"y", .output, .combinational, width, 1, .expr "a_d1"⟩, 2⟩]
  inputs : op.inputs = #[0]
  instances : op.instances = #[]
  laidOut : ∃ delay, LaidOut op 1 [⟨delay, none⟩] schedule

/-- The delay once its input is declared. -/
def delayInput (width : Width) : Operator :=
  { blank 0 "delay" 4 false with
    flow.netlist := ({} : Netlist).add ⟨"a", .input, .combinational, width, 0, .port⟩
    inputs := #[0] }

/-- The delay in the cycle after its input. -/
def delayLater (width : Width) : Operator :=
  { delayInput width with timeline := (delayInput width).timeline.enter 1 }

/-- The delay once its input is carried there. -/
def delayRead (width : Width) : Operator :=
  let op := delayLater width
  { op with
    flow := (op.flow.grow ⟨⟨"a", .input, .combinational, width, 0, .port⟩, 0⟩).remember 0 1 1
    consumed := op.consumed.insert 0 }

/-- The delay before it is finished. -/
def delayBody (width : Width) : Operator :=
  { delayRead width with
    flow.netlist := (delayRead width).flow.netlist.add
      ⟨"y", .output, .combinational, width, 1, .expr "a_d1"⟩
    outputs := #[⟨2, (delayRead width).timeline.criticalPath⟩] }

theorem stageName_delay : Dataflow.stageName "a" 1 = "a_d1" := by decide

theorem netlist_delayRead (width : Width) : (delayRead width).flow.netlist =
    (({} : Netlist).add ⟨"a", .input, .combinational, width, 0, .port⟩).add
      ⟨"a_d1", .internal, .registered, width, 1, .stage 0 1⟩ := by
  rw [← stageName_delay]
  rfl

theorem signals_delayBody (width : Width) : (delayBody width).flow.netlist.signals =
    #[⟨⟨"a", .input, .combinational, width, 0, .port⟩, 0⟩,
      ⟨⟨"a_d1", .internal, .registered, width, 1, .stage 0 1⟩, 1⟩,
      ⟨⟨"y", .output, .combinational, width, 1, .expr "a_d1"⟩, 2⟩] := by
  unfold delayBody
  rw [netlist_delayRead]
  rfl

theorem leads_delayRead (lib : Library) (width : Width) :
    (delayLater width).Leads [(lib, .consume "a")] (delayRead width) ∧
      (delayLater width).identifier? (.consume "a") = some "a_d1" := by
  have hcycle : (delayLater width).timeline.cycle = 1 := Timeline.cycle_enter 1
  have hfind : (delayLater width).flow.netlist.find "a" =
      .ok ⟨⟨"a", .input, .combinational, width, 0, .port⟩, 0⟩ := Netlist.find_add_self _
  have hfree : (delayLater width).flow.netlist.contains (Dataflow.stageName "a" 1) = false := by
    simp [delayLater, delayInput, Netlist.contains, Netlist.add, stageName_delay]
  have hrole : Role.input ≠ Role.output := by decide
  have hresolve : (Dataflow.resolve ⟨⟨"a", .input, .combinational, width, 0, .port⟩, 0⟩ 1).Returns
      (delayLater width).flow 1 (delayRead width).flow :=
    Dataflow.returns_resolve_next rfl rfl hfree
  refine ⟨leads_consume rfl hcycle hfind hrole hresolve, ?_⟩
  have hanswer := (returns_consume hcycle hfind hrole hresolve).result_eq
  rw [identifier?, hanswer, netlist_delayRead]
  rfl

theorem leads_delayBody (lib : Library) (width : Width) : ∃ schedule,
    LaidOut (delayBody width) 1 [⟨(delayRead width).timeline.criticalPath, none⟩] schedule ∧
      (delayBody width).Leads [(lib, .finish)]
        { delayBody width with schedule := some schedule } := by
  have houtputs : (delayBody width).outputs = #[⟨2, (delayRead width).timeline.criticalPath⟩] := rfl
  have hshown : (delayBody width).flow.netlist.signal? 2 =
      some ⟨⟨"y", .output, .combinational, width, 1, .expr "a_d1"⟩, 2⟩ := by
    rw [Netlist.signal?, signals_delayBody]
    rfl
  have hexposure : (delayBody width).exposure = 1 :=
    (exposure_of_single houtputs hshown fun inst hinst => absurd hinst (Array.not_mem_empty inst) :)
  obtain ⟨hdirect, hexposed⟩ := direct_of_single houtputs hshown hexposure.symm
  have hpipelined : (delayBody width).timeline.pipelined = false := Timeline.pipelined_enter 1
  rw [← hexposure, ← hexposed]
  exact leads_finish rfl hdirect (by simp [hpipelined])

theorem runs_delayScript (lib : Library) (width : Width) :
    (blank 0 "delay" 4 false).Completes (delayScript lib width) ∧
      (blank 0 "delay" 4 false).Disciplined identifiers (delayScript lib width) [] ∧
        ∃ schedule,
          ((blank 0 "delay" 4 false).after (delayScript lib width)).schedule = some schedule ∧
          IsDelay width ((blank 0 "delay" 4 false).after (delayScript lib width)) schedule := by
  have hinput : (blank 0 "delay" 4 false).Leads [(lib, .input "a" width)] (delayInput width) :=
    leads_input rfl rfl (by simp [blank, Netlist.contains])
  have hlater : (delayInput width).Leads [(lib, .setCycle 1)] (delayLater width) :=
    leads_setCycle rfl 1
  obtain ⟨hread, hasked⟩ := leads_delayRead lib width
  have hfree : (delayRead width).flow.netlist.contains "y" = false := by
    simp [netlist_delayRead, Netlist.contains, Netlist.add]
  have houtput : (delayRead width).Leads [(lib, .output "y" width "a_d1")] (delayBody width) :=
    leads_output rfl (Timeline.cycle_enter 1) hfree rfl
  obtain ⟨schedule, ⟨hdepth, hsequential, hslices, hcount, hdelays⟩, hfinish⟩ :=
    leads_delayBody lib width
  have hleads : (blank 0 "delay" 4 false).Leads (delayScript lib width)
      { delayBody width with schedule := some schedule } :=
    hinput.cons (hlater.cons (hread.cons (houtput.cons hfinish)))
  refine ⟨hleads.1, ?_, schedule, ?_⟩
  · refine .cons hinput (by simp [Call.expr?]) ?_
    refine .cons hlater (by simp [Call.expr?]) ?_
    refine .cons hread (by simp [Call.expr?]) ?_
    rw [hasked]
    refine .cons houtput ?_ (.cons hfinish (by simp [Call.expr?]) trivial)
    -- the output reads what was asked for in the same cycle
    rintro - ⟨⟩ x hx
    obtain rfl : x = "a_d1" := List.mem_singleton.mp hx
    exact List.mem_cons_self
  · rw [hleads.2]
    exact ⟨rfl, signals_delayBody width, rfl, rfl, _, hdepth, hsequential, hslices, hcount, hdelays⟩

end Operator

end Retime
