import Mathlib.Data.List.Chain
import Retime.Proofs.Library.Latency

/-! # Cascades of copies

A cascade is a chain of copies within one cycle: each copy takes what the one before it
delivers. The engine accounts for each arrival on its own, so a cascade can have any number of
copies, even if each of them takes the whole period.
-/

namespace Retime

open Retime.Action

/-- The second copy takes a signal that the first one delivers. -/
def Instance.Supplies (inst inst' : Instance) : Prop :=
  ∃ formal formal' id, (formal, some id) ∈ inst.outputs ∧ (formal', .signal id) ∈ inst'.inputs

namespace Operator

/-- The instances form a chain of `count` copies that take and deliver in one cycle, each of
which delivers with the given delay. -/
structure Cascade (op : Operator) (cycle count : Nat) (delay : Float) : Prop where
  size : op.instances.size = count
  combinational : ∀ inst ∈ op.instances, inst.interface.depth = 0
  inputCycle : ∀ inst ∈ op.instances, inst.inputCycle = cycle
  delays : ∀ inst ∈ op.instances, inst.interface.outputs.map (·.delay) = [delay]
  chain : op.instances.toList.IsChain Instance.Supplies

/-! ## An operator that takes the whole period -/

/-- Inverts a byte, which takes the whole period. -/
def slowCalls (period : Float) : List Call :=
  [.input "X" (.vector 8), .setCriticalPath period, .output "R" (.vector 8) "~X", .finish]

def slow (lib : Library) (period : Float) : Operator :=
  (blank 0 "slow" period true).after ((slowCalls period).map (lib, ·))

def slowInterface (period : Float) (sequential : Bool) : Interface where
  name := "slow"
  inputs := [⟨"X", .vector 8, 0⟩]
  outputs := [⟨"R", .vector 8, period⟩]
  depth := 0
  sequential

structure IsSlow (op : Operator) (period : Float) : Prop where
  finished : op.isFinished = true
  interface : ∃ sequential, op.interface? = some (slowInterface period sequential)

/-- The operator before it is finished. -/
def slowBody (period : Float) : Operator :=
  { blank 0 "slow" period true with
    timeline := ({ period, pipelined := true } : Timeline).reach period
    flow.netlist := (({} : Netlist).add ⟨"X", .input, .combinational, .vector 8, 0, .port⟩).add
      ⟨"R", .output, .combinational, .vector 8, 0, .expr "~X"⟩
    inputs := #[0]
    outputs := #[⟨1, period⟩] }

section Slow

variable {period : Float} (hfinite : period.isFinite) (hpositive : 0 < period)
include hfinite hpositive

/-- A path can be as long as the period. -/
theorem setCriticalPath_period : ({ period, pipelined := true } : Timeline).setCriticalPath period =
    .ok (({ period, pipelined := true } : Timeline).reach period) := by
  have hperiod : 0 ≤ period := Binary64.le_of_lt hpositive
  have hadmits : ({ period, pipelined := true } : Timeline).Admits period :=
    ⟨hfinite, Binary64.not_lt_of_le hperiod,
      fun hlong => Binary64.not_lt_of_le (Binary64.le_refl_of_le hperiod) hlong.2⟩
  have hfloor : ({ period, pipelined := true } : Timeline).floor 0 = 0 :=
    Std.TreeMap.getD_emptyc
  unfold Timeline.setCriticalPath
  rw [if_pos hadmits]
  dsimp only
  rw [hfloor, if_pos hpositive]

theorem leads_slowCalls (lib : Library) : ∃ schedule,
    LaidOut (slowBody period) 0 [⟨period, none⟩] schedule ∧
      (blank 0 "slow" period true).Leads ((slowCalls period).map (lib, ·))
        { slowBody period with schedule := some schedule } := by
  have hset := setCriticalPath_period hfinite hpositive
  have hbudget : (slowBody period).timeline.Budgeted :=
    Timeline.budgeted_setCriticalPath
      (Timeline.budgeted_start (Binary64.le_of_lt hpositive)) hset
  have hdirect : (slowBody period).Direct := (direct_of_single rfl rfl rfl).1
  obtain ⟨schedule, hlaid, hfinish⟩ : ∃ schedule, _ ∧ (slowBody period).Leads [(lib, .finish)] _ :=
    leads_finish rfl hdirect fun _ => hbudget.toBounded
  refine ⟨schedule, hlaid, ?_⟩
  refine Leads.cons (leads_input rfl rfl (by simp [blank, Netlist.contains])) ?_
  refine Leads.cons (leads_setCriticalPath rfl hset) ?_
  refine Leads.cons (leads_output rfl rfl ?_ rfl) hfinish
  simp [blank, Netlist.contains, Netlist.add]

theorem isSlow_slow (lib : Library) : (slow lib period).IsSlow period := by
  obtain ⟨schedule, hlaid, -, hslow⟩ := leads_slowCalls hfinite hpositive lib
  rw [slow, hslow]
  refine ⟨rfl, schedule.sequential, ?_⟩
  simp only [interface?, Option.map_some, hlaid.depth_eq, hlaid.outputDelays_eq]
  rfl

end Slow

/-! ## Its cascades -/

/-- The signal that copy `k` takes. -/
def linkName (k : Nat) : String :=
  Dataflow.stageName "x" k

def copyName (k : Nat) : String :=
  Dataflow.stageName "u" k

/-- Places copy `k`, which delivers what the next one takes. -/
def placeCopy (k : Nat) : Call :=
  .instantiate 0 (copyName k) ((Wiring.input {} "X" (linkName k)).output "R" (linkName (k + 1)))

def cascadeCalls (count : Nat) : List Call :=
  .input (linkName 0) (.vector 8) :: (List.range count).map placeCopy

/-- Copy `k`, which takes the signal `taken` and drives the signal `given`. -/
def slowCopy (period : Float) (sequential : Bool) (place k : Nat) (taken given : SignalId) :
    Instance :=
  ⟨place, copyName k, 0, slowInterface period sequential, 0, 0, [("X", .signal taken)],
    [("R", some given)]⟩

/-- What copy `k` delivers. -/
def slowOutput (period : Float) (place k : Nat) : Declaration :=
  driven place 0 ⟨"R", .vector 8, period⟩ (linkName (k + 1))

/-- The operator with copy `k` and the timeline after its arrival. -/
def withCopy (op : Operator) (period : Float) (sequential : Bool) (k : Nat) (taken : SignalId)
    (t : Timeline) : Operator :=
  { op with
    consumed := op.consumed.insert taken
    flow.netlist := op.flow.netlist.add (slowOutput period op.instances.size k)
    timeline := t
    instances := op.instances.push
      (slowCopy period sequential op.instances.size k taken op.flow.netlist.size) }

/-- The signal that copy `k` takes is there, and it is what the last copy delivers. -/
structure Link (op : Operator) (k : Nat) (s : Signal) : Prop where
  find : op.flow.netlist.find (linkName k) = .ok s
  role : s.role ≠ .output
  width : s.width = .vector 8
  cycle : s.cycle = 0
  given : ∀ inst ∈ op.instances.toList.getLast?, ∃ formal, (formal, some s.id) ∈ inst.outputs

/-- A cascade of `count` copies to which another one can be added. -/
structure Cascading (op : Operator) (period : Float) (count : Nat) : Prop
    extends Cascade op 0 count period where
  isOpen : op.isFinished = false
  handle : op.handle = 1
  timeline : op.timeline.Budgeted
  period_eq : op.timeline.period = period
  cycle : op.timeline.cycle = 0
  link : ∃ s, op.Link count s
  links : ∀ k, count < k → op.flow.netlist.contains (linkName k) = false
  copies : ∀ k, count ≤ k → op.instances.any (·.name = copyName k) = false

variable {op op' : Operator} {lib : Library} {period delay : Float} {cycle count : Nat}
  {sequential : Bool} {s : Signal} {t : Timeline} {inst : Instance}

theorem linkName_inj {k k' : Nat} : linkName k = linkName k' ↔ k = k' :=
  ⟨fun h => (Dataflow.stageName_injective h).2, congrArg _⟩

theorem copyName_inj {k k' : Nat} : copyName k = copyName k' ↔ k = k' :=
  ⟨fun h => (Dataflow.stageName_injective h).2, congrArg _⟩

/-- A cascade gets longer by a copy that takes what the last one delivers. -/
theorem Cascade.push (h : op.Cascade cycle count delay)
    (hinstances : op'.instances = op.instances.push inst) (hdepth : inst.interface.depth = 0)
    (hcycle : inst.inputCycle = cycle) (hdelays : inst.interface.outputs.map (·.delay) = [delay])
    (hsupplied : ∀ last ∈ op.instances.toList.getLast?, last.Supplies inst) :
    op'.Cascade cycle (count + 1) delay := by
  have hmem : ∀ {P : Instance → Prop}, (∀ i ∈ op.instances, P i) → P inst →
      ∀ i ∈ op'.instances, P i := by
    intro P hold hnew i hi
    rw [hinstances] at hi
    rcases Array.mem_push.mp hi with hin | rfl
    · exact hold i hin
    · exact hnew
  constructor
  · rw [hinstances, Array.size_push, h.size]
  · exact hmem h.combinational hdepth
  · exact hmem h.inputCycle hcycle
  · exact hmem h.delays hdelays
  · rw [hinstances, Array.toList_push, List.isChain_append]
    refine ⟨h.chain, List.isChain_singleton inst, fun last hlast i hi => ?_⟩
    obtain rfl : inst = i := by simpa using hi
    exact hsupplied last hlast

section Copy

variable (h : op.Cascading period count)
include h

/-- A path as long as the period can arrive in the cycle of the cascade. -/
theorem Cascading.arrives (hfinite : period.isFinite) :
    ∃ t, op.timeline.arrive 0 period = .ok t := by
  have hperiod : 0 ≤ period := h.period_eq ▸ h.timeline.period_nonneg
  have hfits : op.timeline.InPeriod period := by
    rw [Timeline.InPeriod, h.period_eq]
    exact ⟨hperiod, Binary64.le_refl_of_le hperiod⟩
  exact Timeline.arrive_of_inPeriod (h.period_eq ▸ hfinite) hfits 0

variable (hs : op.Link count s) (ht : op.timeline.arrive 0 period = .ok t)
include hs ht

theorem Cascading.leads_placeCopy (hitf : lib.interface 0 = .ok (slowInterface period sequential)) :
    op.Leads [(lib, placeCopy count)] (op.withCopy period sequential count s.id t) := by
  let wiring := (Wiring.input {} "X" (linkName count)).output "R" (linkName (count + 1))
  have hadmits : op.Admits lib 0 (copyName count) wiring (slowInterface period sequential) 0 := by
    refine ⟨h.copies count (Nat.le_refl _), ?_, rfl, by rw [h.cycle]; rfl⟩
    rw [subInterface, h.handle]
    exact hitf
  have hread := returns_connectInput op (slowInterface period sequential) wiring
    ⟨"X", .vector 8, 0⟩ rfl hs.find hs.role (by rw [hs.width])
    (Dataflow.returns_resolve_here hs.cycle _)
  have hdrive := returns_connectOutput { op with consumed := op.consumed.insert s.id } wiring
    op.instances.size 0 ⟨"R", .vector 8, period⟩ rfl (h.links _ (Nat.lt_succ_self _)) ht
  have hinputs := hread.forEach_cons (returns_forEach_nil _)
  have hplaced := leads_instantiate h.isOpen hadmits (h.cycle.symm ▸ hinputs)
    (hdrive.forEach_cons (returns_forEach_nil _))
  rw [h.cycle] at hplaced
  exact hplaced

theorem Cascading.withCopy :
    (op.withCopy period sequential count s.id t).Cascading period (count + 1) := by
  refine ⟨?_, h.isOpen, h.handle, ?_, ?_, ?_,
    ⟨_, Netlist.find_add_self _, ?_, rfl, rfl, ?_⟩, ?_, ?_⟩
  · apply h.toCascade.push rfl rfl rfl rfl
    intro last hlast
    obtain ⟨formal, hformal⟩ := hs.given last hlast
    exact ⟨formal, "X", s.id, hformal, List.mem_singleton_self _⟩
  · exact Timeline.budgeted_arrive h.timeline ht
  · exact (Timeline.period_move (m := .arrive 0 period) ht).trans h.period_eq
  · exact (Timeline.cycle_of_arrive ht).trans h.cycle
  · exact (by decide : Role.internal ≠ .output)
  · intro last hlast
    obtain rfl : slowCopy period sequential _ _ _ _ = last := by
      simpa [Operator.withCopy] using hlast
    exact ⟨"R", List.mem_singleton_self _⟩
  · intro k hk
    have hne : linkName (count + 1) ≠ linkName k := mt linkName_inj.mp (Nat.ne_of_lt hk)
    show (Netlist.add _ _).contains _ = false
    rw [Netlist.contains_add, h.links k (Nat.lt_of_succ_lt hk), Bool.or_false]
    exact beq_eq_false_iff_ne.mpr hne
  · intro k hk
    have hne : copyName count ≠ copyName k := mt copyName_inj.mp (Nat.ne_of_lt hk)
    show (Array.push _ _).any _ = false
    rw [Array.any_push, h.copies k (Nat.le_of_succ_le hk), Bool.false_or]
    exact decide_eq_false hne

end Copy

/-- A cascade starts with the signal that its first copy takes. -/
theorem leads_cascade_start (hperiod : 0 ≤ period) : ∃ op,
    (blank 1 "cascade" period true).Leads [(lib, .input (linkName 0) (.vector 8))] op ∧
      op.Cascading period 0 := by
  refine ⟨_, leads_input rfl rfl (by simp [blank, Netlist.contains]), ?_⟩
  refine ⟨⟨rfl, ?_, ?_, ?_, .nil⟩, rfl, rfl, Timeline.budgeted_start hperiod, rfl, rfl,
    ⟨_, Netlist.find_add_self _, ?_, rfl, rfl, ?_⟩, ?_, ?_⟩
  · simp [blank]
  · simp [blank]
  · simp [blank]
  · exact (by decide : Role.input ≠ .output)
  · simp [blank]
  · intro k hk
    have hne : linkName 0 ≠ linkName k := mt linkName_inj.mp (Nat.ne_of_lt hk)
    rw [Netlist.contains_add, beq_eq_false_iff_ne.mpr hne]
    simp [blank, Netlist.contains]
  · simp [blank]

/-- Cascades of such copies can have any length. -/
theorem cascading_calls (hfinite : period.isFinite) (hperiod : 0 ≤ period)
    (hitf : lib.interface 0 = .ok (slowInterface period sequential)) (count : Nat) :
    ∃ op, (blank 1 "cascade" period true).Leads ((cascadeCalls count).map (lib, ·)) op ∧
      op.Cascading period count := by
  induction count with
  | zero => exact leads_cascade_start hperiod
  | succ count ih =>
      obtain ⟨op, hleads, hop⟩ := ih
      obtain ⟨s, hs⟩ := hop.link
      obtain ⟨t, ht⟩ := hop.arrives hfinite
      refine ⟨op.withCopy period sequential count s.id t, ?_, hop.withCopy hs ht⟩
      have hcalls : (cascadeCalls (count + 1)).map (lib, ·) =
          (cascadeCalls count).map (lib, ·) ++ [(lib, placeCopy count)] := by
        simp [cascadeCalls, List.range_succ]
      rw [hcalls]
      exact hleads.append (hop.leads_placeCopy hs ht hitf)

end Operator

namespace Workshop

/-- Commits the slow operator and then builds a cascade of it. -/
def cascadeSteps (period : Float) (count : Nat) : List Step :=
  .create "slow" :: ((Operator.slowCalls period).map (.call 0) ++ .commit 0 :: .create "cascade" ::
    (Operator.cascadeCalls count).map (.call 0))

/-- On a pipelined target with a finite and positive period, a cascade of any length can be
built whose copies all take the whole period, while the critical path is within it. -/
theorem cascade_after_steps (settings : Settings) {device : Device}
    (hpipelined : device.pipelined = true) (hfinite : device.period.isFinite)
    (hpositive : 0 < device.period) (count : Nat) :
    ∃ op ∈ ((empty settings device).after (cascadeSteps device.period count)).bench,
      op.Cascade op.timeline.cycle count device.period ∧
        op.timeline.criticalPath ≤ device.period := by
  have hbuilt : ∀ lib, Operator.slow lib device.period =
      (Operator.blank 0 "slow" device.period device.pipelined).after
        ((Operator.slowCalls device.period).map (lib, ·)) := by
    intro lib
    rw [hpipelined]
    rfl
  have hslow : ∀ lib, (Operator.slow lib device.period).IsSlow device.period := fun lib =>
    Operator.isSlow_slow hfinite hpositive lib
  obtain ⟨lib, before, hcommitted, hw⟩ := after_pair settings device
    (by decide : "slow" ≠ "cascade") (Operator.slowCalls device.period)
    (Operator.cascadeCalls count) hbuilt fun lib => (hslow lib).finished
  have hw' : (empty settings device).after (cascadeSteps device.period count) = _ := hw
  obtain ⟨sequential, hshown⟩ := (hslow before).interface
  have hitf : lib.interface 0 = .ok _ := Library.interface_eq_ok.mpr ⟨_, hcommitted, hshown⟩
  obtain ⟨op, hleads, hop⟩ :=
    Operator.cascading_calls hfinite (Binary64.le_of_lt hpositive) hitf count
  refine ⟨op, ?_, hop.cycle.symm ▸ hop.toCascade, ?_⟩
  · rw [hw', hpipelined]
    exact List.mem_singleton.mpr hleads.2.symm
  · exact hop.period_eq ▸ hop.timeline.path_le

end Workshop

end Retime
