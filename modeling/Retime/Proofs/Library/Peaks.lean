import Retime.Proofs.Library.Latency
import Retime.Proofs.Operator.Peaks

/-! # Arrivals in reported peaks

An arrival is a floor of its cycle, and the schedule reports what was met in each cycle. So a
value that an instance delivers is accounted for in a cycle that is entered afterwards, and
not in one that is passed by.
-/

namespace Retime

open Retime.Action

namespace Timeline

/-- The first cycle of a pipelined timeline with a period of four nanoseconds. -/
def first : Timeline :=
  ({ period := 4, pipelined := true } : Timeline).enter 1

def worked : Timeline :=
  first.reach (first.criticalPath + 1)

theorem criticalPath_first : first.criticalPath = 0 := by
  rw [first, criticalPath_enter]
  exact Std.TreeMap.getD_emptyc

theorem accrue_first :
    (({ period := 4, pipelined := true } : Timeline).enter 1).accrue 1 = .ok (.fitted, worked) := by
  show first.accrue 1 = _
  have hadmits : first.Admits 1 := by
    rw [Admits, first, pipelined_enter, period_enter]
    decide
  have hfits : ¬ (4 : Float) < 0 + 1 := by decide
  unfold accrue
  rw [if_neg (not_not.mpr hadmits), criticalPath_first, first, period_enter, if_neg fun h => hfits h.2]
  rfl

theorem cycle_worked : worked.cycle = 1 :=
  cycle_enter 1

theorem criticalPath_worked : worked.criticalPath = 1 := by
  show first.criticalPath + 1 = 1
  rw [criticalPath_first]
  decide

theorem budgeted_worked : worked.Budgeted :=
  budgeted_accrue ((budgeted_start (by decide)).toBounded.enter 1) accrue_first

/-- A timeline on which a value arrives one nanosecond into the next cycle. -/
def awaiting : Timeline :=
  { period := 4, pipelined := true, floors := raise ∅ 1 1 }

theorem arrive_one :
    ({ period := 4, pipelined := true } : Timeline).arrive 1 1 = .ok awaiting := by
  have hadmits : ({ period := 4, pipelined := true } : Timeline).Admits 1 := by decide
  unfold arrive
  rw [if_pos hadmits]
  rfl

theorem peak_awaiting (cycle : Nat) : awaiting.peak cycle = 0 := by
  show (∅ : Std.TreeMap Nat Float).getD cycle 0 = 0
  exact Std.TreeMap.getD_emptyc

theorem budgeted_awaiting : awaiting.Budgeted :=
  budgeted_arrive (budgeted_start (by decide)) arrive_one

end Timeline

namespace Operator

/-- Inverts a byte one cycle later, which takes one nanosecond. -/
def delayedCalls : List Call :=
  [.input "X" (.vector 8), .advance, .accrue 1, .output "R" (.vector 8) "~X", .finish]

def delayed (lib : Library) : Operator :=
  (blank 0 "delayed" 4 true).after (delayedCalls.map (lib, ·))

def delayedInterface : Interface where
  name := "delayed"
  inputs := [⟨"X", .vector 8, 0⟩]
  outputs := [⟨"R", .vector 8, 1⟩]
  depth := 1
  sequential := true

structure IsDelayed (op : Operator) : Prop where
  finished : op.isFinished = true
  interface : op.interface? = some delayedInterface

/-- The delayed inverter before it is finished. -/
def delayedBody : Operator :=
  { blank 0 "delayed" 4 true with
    timeline := .worked
    flow.netlist := (({} : Netlist).add ⟨"X", .input, .combinational, .vector 8, 0, .port⟩).add
      ⟨"R", .output, .combinational, .vector 8, 1, .expr "~X"⟩
    inputs := #[0]
    outputs := #[⟨1, 1⟩] }

theorem leads_delayedCalls (lib : Library) : ∃ schedule,
    LaidOut delayedBody 1 [⟨1, none⟩] schedule ∧
      (blank 0 "delayed" 4 true).Leads (delayedCalls.map (lib, ·))
        { delayedBody with schedule := some schedule } := by
  obtain ⟨schedule, hlaid, hfinish⟩ : ∃ schedule, _ ∧ delayedBody.Leads [(lib, .finish)] _ :=
    leads_finish rfl (by decide) fun _ => Timeline.budgeted_worked.toBounded
  refine ⟨schedule, hlaid, ?_⟩
  have hadvance : ({ period := 4, pipelined := true } : Timeline).advance = .ok .first := by
    simp [Timeline.advance, Timeline.first, laterCycle, maxCycle, Except.map]
  refine Leads.cons (leads_input rfl rfl (by simp [blank, Netlist.contains])) ?_
  refine Leads.cons (leads_advance rfl hadvance) ?_
  refine Leads.cons (leads_accrue rfl Timeline.accrue_first) ?_
  refine Leads.cons (leads_output rfl Timeline.cycle_worked ?_ Timeline.criticalPath_worked) hfinish
  simp [blank, Netlist.contains, Netlist.add]

theorem isDelayed_delayed (lib : Library) : (delayed lib).IsDelayed := by
  obtain ⟨schedule, hlaid, -, hdelayed⟩ := leads_delayedCalls lib
  have hclocked : schedule.sequential = true := hlaid.sequential_eq.mpr (.inr (.inl Nat.one_pos))
  rw [delayed, hdelayed]
  refine ⟨rfl, ?_⟩
  simp only [interface?, Option.map_some, hlaid.depth_eq, hlaid.outputDelays_eq, hclocked]
  rfl

/-- A copy of the delayed inverter that takes `a`. -/
def readerCalls : List Call :=
  [.input "a" (.vector 8), .instantiate 0 "u" ((Wiring.input {} "X" "a").output "R" "y")]

def reader (lib : Library) (calls : List Call) : Operator :=
  (blank 1 "reader" 4 true).after (calls.map (lib, ·))

/-- The slice of the cycle in which an output of an instance is valid accounts for its delay. -/
def ReportsArrivals (op : Operator) : Prop :=
  ∀ schedule, op.schedule = some schedule → ∀ inst ∈ op.instances, ∀ p formal id s slice,
    (p, formal, some id) ∈ inst.interface.outputs.zip inst.outputs →
    op.flow.netlist.signal? id = some s → schedule.slices[s.cycle]? = some slice →
    p.delay ≤ slice.peak

/-- The delayed inverter delivers signal one in cycle one. -/
structure IsReader (op : Operator) : Prop where
  finished : op.isFinished = false
  timeline : op.timeline = Timeline.awaiting
  instances : ∃ inst, op.instances = #[inst] ∧ inst.interface = delayedInterface ∧
    inst.inputCycle = 0 ∧ inst.outputs = [("R", some 1)]
  signals : ∃ a y, op.flow.netlist.signals = #[a, y] ∧ a.cycle = 0 ∧ y.cycle = 1
  outputs : op.outputs = #[]

theorem isReader_reader {lib : Library} (hitf : lib.interface 0 = .ok delayedInterface) :
    (blank 1 "reader" 4 true).Completes (readerCalls.map (lib, ·)) ∧
      (reader lib readerCalls).IsReader := by
  let a : Declaration := ⟨"a", .input, .combinational, .vector 8, 0, .port⟩
  let given : Operator :=
    { blank 1 "reader" 4 true with flow.netlist := ({} : Netlist).add a, inputs := #[0] }
  let wiring : Wiring := (Wiring.input {} "X" "a").output "R" "y"
  have hadmits : given.Admits lib 0 "u" wiring delayedInterface 1 :=
    ⟨by simp [given, blank], hitf, rfl, rfl⟩
  have hfind : given.flow.netlist.find "a" = .ok ⟨a, 0⟩ := Netlist.find_add_self a
  have hread := returns_connectInput given delayedInterface wiring ⟨"X", .vector 8, 0⟩ rfl hfind
    (by decide) rfl (Dataflow.returns_resolve_here rfl _)
  have hdrive := returns_connectOutput { given with consumed := given.consumed.insert 0 } wiring 0 1
    ⟨"R", .vector 8, 1⟩ rfl (by simp [given, a, Netlist.contains, Netlist.add]) Timeline.arrive_one
  have hcopy : given.Leads [(lib, .instantiate 0 "u" wiring)] _ :=
    leads_instantiate rfl hadmits (hread.forEach_cons (returns_forEach_nil _))
      (hdrive.forEach_cons (returns_forEach_nil _))
  have hreader : (blank 1 "reader" 4 true).Leads (readerCalls.map (lib, ·)) _ :=
    Leads.cons (leads_input rfl rfl (by simp [blank, Netlist.contains])) hcopy
  refine ⟨hreader.1, ?_⟩
  rw [reader, hreader.2]
  exact ⟨rfl, rfl, ⟨_, rfl, rfl, rfl, rfl⟩, ⟨_, _, rfl, rfl, rfl⟩, rfl⟩

theorem IsReader.advance {op : Operator} (h : op.IsReader) (lib : Library) :
    op.Leads [(lib, .advance)] { op with timeline := Timeline.awaiting.enter 1 } := by
  refine leads_advance h.finished ?_
  simp [h.timeline, Timeline.advance, Timeline.awaiting, laterCycle, maxCycle, Except.map]

theorem IsReader.leads_finish {op : Operator} (h : op.IsReader) (lib : Library) : ∃ schedule,
    LaidOut op 0 [] schedule ∧ op.Leads [(lib, .finish)] { op with schedule := some schedule } :=
  leads_finish_of_bounded h.finished h.outputs (h.timeline ▸ Timeline.budgeted_awaiting.toBounded)

/-- If the operator is finished at once, the peak of cycle one is zero. -/
theorem IsReader.not_reportsArrivals {op : Operator} (h : op.IsReader) (lib : Library) :
    (op.step (lib, .finish)).isFinished = true ∧ ¬ (op.step (lib, .finish)).ReportsArrivals := by
  obtain ⟨schedule, hlaid, hfinish⟩ := h.leads_finish lib
  obtain ⟨inst, hinstances, hitf, hinput, houtputs⟩ := h.instances
  obtain ⟨a, y, hsignals, ha, hy⟩ := h.signals
  rw [hfinish.step_eq]
  refine ⟨rfl, fun hreports => ?_⟩
  have hlast : op.lastCycle 0 = 1 := by
    simp [lastCycle, hsignals, hinstances, ha, hy, hinput]
  have hslice : ∃ slice, schedule.slices[1]? = some slice ∧ slice.peak = 0 := by
    rw [hlaid.slices_eq, slices, hlast, h.timeline]
    exact ⟨_, rfl, Timeline.peak_awaiting 1⟩
  obtain ⟨slice, hslice, hpeak⟩ := hslice
  have hone : (1 : Float) ≤ slice.peak := by
    refine hreports schedule rfl inst (by simp [hinstances]) ⟨"R", .vector 8, 1⟩ "R" 1 y slice ?_ ?_ ?_
    · simp [hitf, houtputs, delayedInterface]
    · simp [Netlist.signal?, hsignals]
    · rw [hy]
      exact hslice
  rw [hpeak] at hone
  exact absurd hone (by decide)

end Operator

namespace Workshop

/-- Commits the delayed inverter and then makes calls on another operator. -/
def delayedSteps (calls : List Call) : List Step :=
  .create "delayed" :: (Operator.delayedCalls.map (.call 0) ++ .commit 0 :: .create "reader" ::
    calls.map (.call 0))

theorem after_delayedSteps (calls : List Call) :
    let settings : Settings := { frequencyMhz := 250 }
    ∃ lib, lib.interface 0 = .ok Operator.delayedInterface ∧
      (empty settings (.ofSettings settings)).after (delayedSteps calls) =
        ⟨lib, [Operator.reader lib calls]⟩ := by
  intro settings
  have hperiod : (Device.ofSettings settings).period = 4 := period_of_250MHz
  have hbuilt : ∀ lib, Operator.delayed lib =
      (Operator.blank 0 "delayed" (Device.ofSettings settings).period true).after
        (Operator.delayedCalls.map (lib, ·)) := by
    intro lib
    rw [hperiod]
    rfl
  obtain ⟨lib, before, hcommitted, hw⟩ := after_pair settings (.ofSettings settings)
    (by decide : "delayed" ≠ "reader") Operator.delayedCalls calls hbuilt
    fun lib => (Operator.isDelayed_delayed lib).finished
  rw [hperiod] at hw
  exact ⟨lib, Library.interface_eq_ok.mpr
    ⟨_, hcommitted, (Operator.isDelayed_delayed before).interface⟩, hw⟩

theorem arrival_in_cycle_not_entered :
    let settings : Settings := { frequencyMhz := 250 }
    let w := (empty settings (.ofSettings settings)).after
      (delayedSteps (Operator.readerCalls ++ [.finish]))
    ∃ op ∈ w.bench, op.isFinished = true ∧ ¬ op.ReportsArrivals := by
  intro settings w
  obtain ⟨lib, hitf, hw⟩ := after_delayedSteps (Operator.readerCalls ++ [.finish])
  rw [show w = _ from hw]
  refine ⟨_, List.mem_singleton_self _, ?_⟩
  exact (Operator.isReader_reader hitf).2.not_reportsArrivals lib

end Workshop

/-! ## What is reported -/

namespace Operator

open Timeline

/-- A finished operator shows, for every cycle, the longest path that was met in it, and zero
if it was not entered. What an instance delivers is a floor of its cycle in any case, and is
accounted for there if that cycle was the current one when the instance was placed, or at any
time after that. -/
theorem peaks_show_paths_met {handle : Handle} {name : String} {period : Float}
    {pipelined : Bool} {script : Script} {lib : Library}
    (hcompletes : (blank handle name period pipelined).Completes (script ++ [(lib, .finish)])) :
    let start := blank handle name period pipelined
    let run := script ++ [(lib, .finish)]
    let op := start.after run
    ∃ schedule, op.schedule = some schedule ∧
      (∀ slice ∈ schedule.slices, ∀ x, x ≤ slice.peak ↔ x ≤ 0 ∨ start.Meets run slice.cycle x) ∧
      ∀ inst ∈ op.instances, ∀ p formal id,
        (p, formal, some id) ∈ inst.interface.outputs.zip inst.outputs →
        ∃ s slice, op.flow.netlist.signal? id = some s ∧
          schedule.slices[s.cycle]? = some slice ∧ slice.cycle = s.cycle ∧
          p.delay ≤ op.timeline.floor s.cycle ∧
          ∀ done rest, run = done ++ rest → inst ∈ (start.after done).instances →
            (start.after done).timeline.cycle = s.cycle → p.delay ≤ slice.peak := by
  intro start run op
  have hconsistent : start.Consistent := consistent_blank handle name period pipelined
  have htracked : start.timeline.Tracked := tracked_start period pipelined
  have harrived : ∀ inst ∈ start.instances, start.Arrived inst := by
    intro inst hinst
    simp [start, blank] at hinst
  obtain ⟨schedule, exposed, hfinished⟩ := finished_after hconsistent hcompletes
  change start.Completes run at hcompletes
  have hlaid := laidOut hfinished.layOut
  have hzero : ∀ cycle, start.timeline.peak cycle = 0 := fun cycle => by
    show (∅ : Std.TreeMap Nat Float).getD cycle 0 = 0
    exact Std.TreeMap.getD_emptyc
  have hpeaks : ∀ slice ∈ schedule.slices, ∀ x,
      x ≤ slice.peak ↔ x ≤ 0 ∨ start.Meets run slice.cycle x := by
    intro slice hslice x
    rw [hlaid.slices_eq] at hslice
    obtain ⟨cycle, -, rfl⟩ := List.mem_map.mp hslice
    rw [← hzero cycle]
    exact le_peak_iff_meets htracked hcompletes cycle x
  refine ⟨schedule, hfinished.schedule_eq, hpeaks, ?_⟩
  intro inst hinst p formal id hmem
  obtain ⟨s, hs, hfloor⟩ :=
    arrived_after hconsistent htracked harrived hcompletes inst hinst p formal id hmem
  -- the schedule has a slice for the cycle of the signal
  have hlast : s.cycle < op.lastCycle (start.after script).exposure + 1 :=
    Nat.lt_succ_of_le (cycle_le_lastCycle (Array.mem_toList_iff.mpr (Array.mem_of_getElem? hs)))
  obtain ⟨slice, hslice, hcycle⟩ : ∃ slice, schedule.slices[s.cycle]? = some slice ∧
      slice.cycle = s.cycle := by
    rw [hlaid.slices_eq, slices, List.getElem?_map, List.getElem?_range hlast]
    exact ⟨_, rfl, rfl⟩
  refine ⟨s, slice, hs, hslice, hcycle, hfloor, ?_⟩
  intro done rest hrun hplaced hhere
  refine (hpeaks slice (List.mem_of_getElem? hslice) _).mpr (.inr ?_)
  rw [hcycle]
  subst op
  rw [hrun] at hcompletes hs ⊢
  exact meets_of_placed hconsistent htracked harrived hcompletes hplaced hmem hs hhere

end Operator

namespace Workshop

/-- If the reader enters cycle one before it is finished, the delay is reported there; the
floor of that cycle is the delay. -/
theorem arrival_in_cycle_entered :
    let settings : Settings := { frequencyMhz := 250 }
    let w := (empty settings (.ofSettings settings)).after
      (delayedSteps (Operator.readerCalls ++ [.advance, .finish]))
    ∃ op ∈ w.bench, ∃ schedule slice, op.schedule = some schedule ∧
      schedule.slices[1]? = some slice ∧ 1 ≤ op.timeline.floor 1 ∧ 1 ≤ slice.peak := by
  intro settings w
  obtain ⟨lib, hitf, hw⟩ := after_delayedSteps (Operator.readerCalls ++ [.advance, .finish])
  have hw' : w = ⟨lib, [(Operator.blank 1 "reader" 4 true).after
    (Operator.readerCalls.map (lib, ·) ++ [(lib, .advance)] ++ [(lib, .finish)])]⟩ := hw
  rw [hw']
  obtain ⟨hcompletes, hreader⟩ := Operator.isReader_reader hitf
  let run : Script := Operator.readerCalls.map (lib, ·) ++ [(lib, .advance)]
  let entered : Operator :=
    { Operator.reader lib Operator.readerCalls with timeline := Timeline.awaiting.enter 1 }
  have hopen : entered.isFinished = false := hreader.finished
  have hentered : (Operator.blank 1 "reader" 4 true).Leads run entered :=
    Operator.Leads.append ⟨hcompletes, rfl⟩ (hreader.advance lib)
  obtain ⟨schedule, -, hfinish⟩ : ∃ schedule, _ ∧ entered.Leads [(lib, .finish)] _ :=
    Operator.leads_finish_of_bounded hopen hreader.outputs
      (Timeline.budgeted_awaiting.toBounded.enter 1).toBounded
  obtain ⟨inst, hinstances, hitf', -, houtputs⟩ : ∃ inst, entered.instances = #[inst] ∧ _ :=
    hreader.instances
  obtain ⟨a, y, hsignals, -, hy⟩ : ∃ a y, entered.flow.netlist.signals = #[a, y] ∧ _ :=
    hreader.signals
  obtain ⟨hcompletes', hlast⟩ := hentered.append hfinish
  obtain ⟨schedule', hschedule, -, hdelivered⟩ := Operator.peaks_show_paths_met hcompletes'
  obtain ⟨s, slice, hs, hslice, -, hfloor, hle⟩ := hdelivered inst (by simp [hlast, hinstances])
    ⟨"R", .vector 8, 1⟩ "R" 1 (by simp [hitf', houtputs, Operator.delayedInterface])
  have hcycle : s.cycle = 1 := by
    rw [hlast] at hs
    obtain rfl : y = s := by simpa [Netlist.signal?, hsignals] using hs
    exact hy
  rw [hcycle] at hslice hfloor
  refine ⟨_, List.mem_singleton_self _, schedule', slice, hschedule, hslice, hfloor, ?_⟩
  exact hle run [(lib, .finish)] rfl (by simp [hentered.2, hinstances])
    (by rw [hentered.2, hcycle]; exact Timeline.cycle_enter 1)

end Workshop

end Retime
