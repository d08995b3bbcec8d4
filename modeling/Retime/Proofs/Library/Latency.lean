import Retime.Proofs.Library.Workshop
import Retime.Proofs.Operator.Runs

/-! # Latencies of instances

An instance takes all its inputs in one cycle. For an operator whose inputs were all declared
in cycle zero this is the cycle in which each of them is expected. The interface does not
tell of inputs that were declared later, and they are taken no later than the others.
-/

namespace Retime

open Retime.Action

/-! ## What is expected and what is given -/

namespace Operator

/-- The cycle in which an input of that name was declared. -/
def inputCycle? (op : Operator) (formal : String) : Option Nat :=
  ((op.inputs.toList.filterMap op.flow.netlist.signal?).find? (·.name = formal)).map (·.cycle)

/-- Each signal at an input of an instance is valid as long after the cycle in which the
inputs are taken as the copied operator expects that input after its first cycle. -/
def LatencyConsistent (op : Operator) (lib : Library) : Prop :=
  ∀ inst ∈ op.instances, ∀ formal id, (formal, .signal id) ∈ inst.inputs →
    ∃ sub s expected, lib.operator? inst.sub = some sub ∧
      sub.inputCycle? formal = some expected ∧ op.flow.netlist.signal? id = some s ∧
        s.cycle = inst.inputCycle + expected

variable {op sub : Operator} {lib : Library}

/-- The inputs that an interface shows were declared. -/
theorem inputCycle?_of_interface {itf : Interface} (hitf : sub.interface? = some itf) {p : Port}
    (hp : p ∈ itf.inputs) : ∃ expected, sub.inputCycle? p.name = some expected := by
  obtain ⟨schedule, -, rfl⟩ := Option.map_eq_some_iff.mp hitf
  obtain ⟨id, hid, hport⟩ := List.mem_filterMap.mp hp
  obtain ⟨s, hs, rfl⟩ := Option.map_eq_some_iff.mp hport
  have hin : s ∈ sub.inputs.toList.filterMap sub.flow.netlist.signal? :=
    List.mem_filterMap.mpr ⟨id, hid, hs⟩
  have hfound : ((sub.inputs.toList.filterMap sub.flow.netlist.signal?).find?
      (·.name = s.name)).isSome = true :=
    List.find?_isSome.mpr ⟨s, hin, by simp⟩
  obtain ⟨t, ht⟩ := Option.isSome_iff_exists.mp hfound
  exact ⟨t.cycle, by rw [inputCycle?, ht, Option.map_some]⟩

/-- A signal at an input is valid when the inputs are taken. -/
theorem Linked.taken (hop : op.Linked lib) {inst : Instance} (hinst : inst ∈ op.instances)
    {formal : String} {id : SignalId} (hin : (formal, .signal id) ∈ inst.inputs) :
    ∃ sub s expected, lib.operator? inst.sub = some sub ∧
      sub.inputCycle? formal = some expected ∧ op.flow.netlist.signal? id = some s ∧
        s.cycle = inst.inputCycle := by
  obtain ⟨place, hlinked⟩ := hop.of_mem hinst
  obtain ⟨sub, hsub, hitf⟩ := hop.committed hinst
  obtain ⟨p, hp, htakes⟩ := exists_left_of_forall₂ hlinked.inputs hin
  obtain ⟨expected, hexpected⟩ := inputCycle?_of_interface hitf hp
  cases htakes with
  | signal s mem role cycle_eq width => exact ⟨sub, s, expected, hsub, hexpected, mem, cycle_eq⟩

theorem Linked.latencyConsistent_iff (hop : op.Linked lib) : op.LatencyConsistent lib ↔
    ∀ inst ∈ op.instances, ∀ formal id, (formal, .signal id) ∈ inst.inputs →
      ∃ sub, lib.operator? inst.sub = some sub ∧ sub.inputCycle? formal = some 0 := by
  constructor
  · intro hconsistent inst hinst formal id hin
    obtain ⟨sub, s, expected, hsub, hexpected, hs, hcycle⟩ := hconsistent inst hinst formal id hin
    obtain ⟨-, s', -, -, -, hs', hcycle'⟩ := hop.taken hinst hin
    obtain rfl := Option.some.inj (hs.symm.trans hs')
    obtain rfl : expected = 0 := by omega
    exact ⟨sub, hsub, hexpected⟩
  · intro hzero inst hinst formal id hin
    obtain ⟨sub, hsub, hexpected⟩ := hzero inst hinst formal id hin
    obtain ⟨-, s, -, -, -, hs, hcycle⟩ := hop.taken hinst hin
    exact ⟨sub, s, 0, hsub, hexpected, hs, hcycle⟩

end Operator

namespace Workshop

/-- Whatever is done in a workshop, every signal at an input of an instance is valid in the
cycle in which the inputs are taken, in whatever cycle the copied operator declared that
input. So an operator is consistent in its latencies if and only if all the inputs that it
connects to signals were declared in cycle zero. -/
theorem inputs_taken_together (settings : Settings) (device : Device) (steps : List Step) :
    let w := (empty settings device).after steps
    (∀ op, w.Holds op → ∀ inst ∈ op.instances,
      ∀ formal id, (formal, .signal id) ∈ inst.inputs →
        ∃ sub s expected, w.library.operator? inst.sub = some sub ∧
          sub.inputCycle? formal = some expected ∧ op.flow.netlist.signal? id = some s ∧
            s.cycle = inst.inputCycle) ∧
    ∀ op, w.Holds op → (op.LatencyConsistent w.library ↔
      ∀ inst ∈ op.instances, ∀ formal id, (formal, .signal id) ∈ inst.inputs →
        ∃ sub, w.library.operator? inst.sub = some sub ∧ sub.inputCycle? formal = some 0) := by
  intro w
  have hw : w.Sound := sound_after_empty settings device steps
  exact ⟨fun op hop inst hinst formal id hin => (hw.linked_of_holds hop).taken hinst hin,
    fun op hop => (hw.linked_of_holds hop).latencyConsistent_iff⟩

end Workshop

/-! ## An input that is declared late -/

namespace Operator

/-- An input that is declared in cycle one and passed on at once. -/
def lateCalls : List Call :=
  [.advance, .input "f" (.vector 8), .output "y" (.vector 8) "f", .finish]

/-- A copy of the first operator, which takes a signal of cycle zero. -/
def topCalls : List Call :=
  [.input "a" (.vector 8), .instantiate 0 "u" (Wiring.input {} "f" "a")]

def late (lib : Library) (period : Float) : Operator :=
  (blank 0 "late" period false).after (lateCalls.map (lib, ·))

def top (lib : Library) (period : Float) (pipelined : Bool) : Operator :=
  (blank 1 "top" period pipelined).after (topCalls.map (lib, ·))

/-- The interface of the late operator. -/
def lateInterface (delay : Float) : Interface where
  name := "late"
  inputs := [⟨"f", .vector 8, 0⟩]
  outputs := [⟨"y", .vector 8, delay⟩]
  depth := 1
  sequential := true

/-- What the late operator shows and what it expects. -/
structure IsLate (op : Operator) : Prop where
  finished : op.isFinished = true
  handle : op.handle = 0
  name : op.name = "late"
  interface : ∃ delay, op.interface? = some (lateInterface delay)
  input : op.inputCycle? "f" = some 1

/-- The late operator before it is finished. -/
def lateBody (period : Float) : Operator :=
  let timeline := ({ period, pipelined := false } : Timeline).enter 1
  { blank 0 "late" period false with
    timeline
    flow.netlist := (({} : Netlist).add ⟨"f", .input, .combinational, .vector 8, 1, .port⟩).add
      ⟨"y", .output, .combinational, .vector 8, 1, .expr "f"⟩
    inputs := #[0]
    outputs := #[⟨1, timeline.criticalPath⟩] }

theorem leads_lateCalls (lib : Library) (period : Float) : ∃ delay schedule,
    LaidOut (lateBody period) 1 [⟨delay, none⟩] schedule ∧
      (blank 0 "late" period false).Leads (lateCalls.map (lib, ·))
        { lateBody period with schedule := some schedule } := by
  have hadvance : ({ period, pipelined := false } : Timeline).advance =
      .ok (({ period, pipelined := false } : Timeline).enter 1) := by
    simp [Timeline.advance, laterCycle, maxCycle, Except.map]
  have hdirect : (lateBody period).Direct := (direct_of_single rfl rfl rfl).1
  obtain ⟨schedule, hlaid, hfinish⟩ : ∃ schedule, _ ∧ Leads _ [(lib, .finish)] _ :=
    leads_finish rfl hdirect (by simp [lateBody])
  refine ⟨_, schedule, hlaid, ?_⟩
  refine Leads.cons (leads_advance rfl hadvance) ?_
  refine Leads.cons (leads_input rfl (Timeline.cycle_enter 1) (by simp [blank, Netlist.contains])) ?_
  refine Leads.cons (leads_output rfl (Timeline.cycle_enter 1) ?_ rfl) hfinish
  simp [blank, Netlist.contains, Netlist.add]

theorem isLate_late (lib : Library) (period : Float) : (late lib period).IsLate := by
  obtain ⟨delay, schedule, hlaid, -, hlate⟩ := leads_lateCalls lib period
  have hclocked : schedule.sequential = true := hlaid.sequential_eq.mpr (.inr (.inl Nat.one_pos))
  have hitf : ({ lateBody period with schedule := some schedule } : Operator).interface? =
      some (lateInterface delay) := by
    simp only [interface?, Option.map_some, hlaid.depth_eq, hlaid.outputDelays_eq, hclocked]
    rfl
  rw [late, hlate]
  exact ⟨rfl, rfl, rfl, ⟨delay, hitf⟩, rfl⟩

/-- An instance of operator zero that takes the signal zero in cycle zero, in which it is
valid. -/
structure TakesEarly (op : Operator) : Prop where
  instances : ∃ inst, op.instances = #[inst] ∧ inst.sub = 0 ∧ inst.inputCycle = 0 ∧
    inst.inputs = [("f", .signal 0)]
  signal : ∃ s, op.flow.netlist.signal? 0 = some s ∧ s.cycle = 0

theorem takesEarly_top {lib : Library} {delay : Float}
    (hitf : lib.interface 0 = .ok (lateInterface delay)) (period : Float) (pipelined : Bool) :
    (top lib period pipelined).TakesEarly := by
  let a : Declaration := ⟨"a", .input, .combinational, .vector 8, 0, .port⟩
  let given : Operator :=
    { blank 1 "top" period pipelined with flow.netlist := ({} : Netlist).add a, inputs := #[0] }
  have hadmits : given.Admits lib 0 "u" (Wiring.input {} "f" "a") (lateInterface delay) 1 :=
    ⟨by simp [given, blank], hitf, rfl, rfl⟩
  have hfind : given.flow.netlist.find "a" = .ok ⟨a, 0⟩ := Netlist.find_add_self a
  have hread := returns_connectInput given (lateInterface delay) (Wiring.input {} "f" "a")
    ⟨"f", .vector 8, 0⟩ rfl hfind (by decide) rfl (Dataflow.returns_resolve_here rfl _)
  have hopen := returns_connectOutput_open { given with consumed := given.consumed.insert 0 }
    (Wiring.input {} "f" "a") 0 1 ⟨"y", .vector 8, delay⟩ rfl
  have hcopy : given.Leads [(lib, .instantiate 0 "u" (Wiring.input {} "f" "a"))] _ :=
    leads_instantiate rfl hadmits (hread.forEach_cons (returns_forEach_nil _))
      (hopen.forEach_cons (returns_forEach_nil _))
  have htop : top lib period pipelined = _ :=
    (Leads.cons (leads_input rfl rfl (by simp [blank, Netlist.contains])) hcopy).2
  rw [htop]
  exact ⟨⟨_, rfl, rfl, rfl, rfl⟩, _, rfl, rfl⟩

/-- What is taken early by an instance of the late operator comes before it is expected. -/
theorem TakesEarly.not_latencyConsistent {op late : Operator} {lib : Library}
    (hop : op.TakesEarly) (hlate : lib.operator? 0 = some late)
    (hinput : late.inputCycle? "f" = some 1) : ¬ op.LatencyConsistent lib := by
  intro hconsistent
  obtain ⟨inst, hinstances, hsub, hcycle, hinputs⟩ := hop.instances
  obtain ⟨s, hs, hscycle⟩ := hop.signal
  obtain ⟨late', s', expected, hlate', hexpected, hs', hvalid⟩ :=
    hconsistent inst (by simp [hinstances]) "f" 0 (by simp [hinputs])
  rw [hsub, hlate] at hlate'
  obtain rfl := Option.some.inj hlate'
  obtain rfl := Option.some.inj (hs.symm.trans hs')
  obtain rfl := Option.some.inj (hinput.symm.trans hexpected)
  rw [hscycle, hcycle] at hvalid
  cases hvalid

end Operator

namespace Workshop

/-- Commits the late operator and then places a copy of it in another one. -/
def lateSteps : List Step :=
  .create "late" :: (Operator.lateCalls.map (.call 0) ++ .commit 0 :: .create "top" ::
    Operator.topCalls.map (.call 0))

variable {op : Operator}

theorem after_append (w : Workshop) (steps steps' : List Step) :
    w.after (steps ++ steps') = (w.after steps).after steps' :=
  List.foldl_append

/-- Calls on the only operator on the bench are a script of it. -/
theorem after_calls (calls : List Call) (lib : Library) (op : Operator) :
    after ⟨lib, [op]⟩ (calls.map (.call 0)) = ⟨lib, [op.after (calls.map (lib, ·))]⟩ := by
  induction calls generalizing op with
  | nil => rfl
  | cons c calls ih => exact ih (op.step (lib, c))

theorem after_create (lib : Library) (name : String) (hfree : lib.lookup name = none)
    (steps : List Step) : ∃ lib',
      lib.Reserves name (.blank lib.slots.size name lib.device.period lib.device.pipelined) lib' ∧
        after ⟨lib, []⟩ (.create name :: steps) =
          after ⟨lib', [.blank lib.slots.size name lib.device.period lib.device.pipelined]⟩ steps := by
  have hcontains : lib.index.contains name = false := by simpa [Library.lookup] using hfree
  obtain ⟨op, lib', hcreate⟩ : ∃ op lib', lib.create name = .ok (op, lib') := by
    simp [Library.create, hcontains]
  have hres := Library.reserves_of_create hcreate
  obtain rfl := hres.operator
  exact ⟨lib', hres, by simp [after, step, hcreate]⟩

theorem after_commit {lib : Library} (hawaits : lib.Awaits op) (hfinished : op.isFinished = true)
    (steps : List Step) : ∃ lib', lib.Commits op op.handle lib' ∧
      after ⟨lib, [op]⟩ (.commit 0 :: steps) = after ⟨lib', []⟩ steps := by
  obtain ⟨lib', hcommit⟩ := Library.commit_of_awaits hawaits hfinished
  refine ⟨lib', Library.commits_of_commit hcommit, ?_⟩
  simp [after, step, hcommit]

/-- One operator is finished and committed before another one is described. -/
theorem after_pair (settings : Settings) (device : Device) {first second : String}
    (hne : first ≠ second) (calls calls' : List Call) {built : Library → Operator}
    (hbuilt : ∀ lib, built lib = (Operator.blank 0 first device.period device.pipelined).after
      (calls.map (lib, ·))) (hfinished : ∀ lib, (built lib).isFinished = true) :
    ∃ lib before, lib.operator? 0 = some (built before) ∧
      (empty settings device).after (.create first :: (calls.map (.call 0) ++
        .commit 0 :: .create second :: calls'.map (.call 0))) =
      ⟨lib, [(Operator.blank 1 second device.period device.pipelined).after
        (calls'.map (lib, ·))]⟩ := by
  obtain ⟨lib₁, hres, hcreate⟩ := after_create { settings, device } first
    (by simp [Library.lookup])
    (calls.map (.call 0) ++ .commit 0 :: .create second :: calls'.map (.call 0))
  obtain ⟨hhandle, hname⟩ : (built lib₁).handle = 0 ∧ (built lib₁).name = first := by
    rw [hbuilt]
    exact Operator.identity_after _ _
  have hawaits : lib₁.Awaits (built lib₁) := by
    rw [Library.Awaits, hhandle, hname]
    exact hres.awaits
  obtain ⟨lib₂, hcom, hcommit⟩ := after_commit hawaits (hfinished lib₁)
    (.create second :: calls'.map (.call 0))
  have hfree : lib₂.lookup second = none := by
    rw [Library.lookup, hcom.index, hres.index]
    simp [hne]
  obtain ⟨lib₃, hres', hcreate'⟩ := after_create lib₂ second hfree (calls'.map (.call 0))
  have hsize : lib₂.slots.size = 1 := by simp [hcom.slots, hres.slots]
  have hdevice : lib₂.device = device := hcom.device.trans hres.device
  refine ⟨lib₃, lib₁, ?_, ?_⟩
  · rw [hres'.operator?, hcom.operator?, if_pos hhandle]
  · refine hcreate.trans ?_
    rw [after_append, after_calls]
    rw [hbuilt] at hcommit
    refine hcommit.trans ?_
    rw [hcreate', after_calls, hsize, hdevice]

/-- At 250 MHz a cycle takes four nanoseconds. -/
theorem period_of_250MHz : (Device.ofSettings { frequencyMhz := 250 }).period = 4 := by
  decide

/-- An operator need not be consistent in its latencies: the late one expects its input in
cycle one, and it is taken in cycle zero. -/
theorem late_input_taken_early :
    let settings : Settings := { pipelined := false }
    let w := (empty settings (.ofSettings settings)).after lateSteps
    ∃ op ∈ w.bench, ¬ op.LatencyConsistent w.library := by
  intro settings w
  let device : Device := .ofSettings settings
  obtain ⟨lib₁, hres, hcreate⟩ := after_create { settings, device } "late"
    (by simp [Library.lookup]) (Operator.lateCalls.map (.call 0) ++ .commit 0 :: .create "top" ::
      Operator.topCalls.map (.call 0))
  have hlate := Operator.isLate_late lib₁ device.period
  have hawaits : lib₁.Awaits (.late lib₁ device.period) := by
    rw [Library.Awaits, hlate.handle, hlate.name]
    exact hres.awaits
  obtain ⟨lib₂, hcom, hcommit⟩ := after_commit hawaits hlate.finished
    (.create "top" :: Operator.topCalls.map (.call 0))
  have hfree : lib₂.lookup "top" = none := by
    rw [Library.lookup, hcom.index, hres.index]
    simp
  obtain ⟨lib₃, hres', hcreate'⟩ := after_create lib₂ "top" hfree (Operator.topCalls.map (.call 0))
  have hcommitted : lib₃.operator? 0 = some (.late lib₁ device.period) := by
    rw [hres'.operator?, hcom.operator?, if_pos hlate.handle]
  obtain ⟨delay, hitf⟩ := hlate.interface
  have htakes := Operator.takesEarly_top (Library.interface_eq_ok.mpr ⟨_, hcommitted, hitf⟩)
    lib₂.device.period lib₂.device.pipelined
  have hw : w = ⟨lib₃, [.top lib₃ lib₂.device.period lib₂.device.pipelined]⟩ := by
    have hsize : lib₂.slots.size = 1 := by simp [hcom.slots, hres.slots]
    refine hcreate.trans ?_
    rw [after_append, after_calls]
    refine hcommit.trans ?_
    rw [hcreate', after_calls, hsize]
    rfl
  rw [hw]
  exact ⟨_, List.mem_singleton_self _, htakes.not_latencyConsistent hcommitted hlate.input⟩

end Workshop

end Retime
