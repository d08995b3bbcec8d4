import Retime.Proofs.Library.Cascade
import Retime.Proofs.Library.Timing

/-! # Delays of combinational copies

The delay of an output counts from the clock edge. A copy of depth zero passes its inputs on
in the same cycle, but what arrives from it does not add up with the path at which its
operands were declared: the later of both counts.
-/

namespace Retime

open Retime.Action

/-! ## Delays do not stack -/

namespace Operator

/-- What the copy delivers arrives when the work before it ends, not later. -/
theorem IsChain.criticalPath_copied {op : Operator} {lib : Library} {sequential : Bool}
    (h : op.IsChain lib) (hitf : lib.interface 0 = .ok (inverterInterface sequential)) :
    ((op.step (lib, chainEnd)).step (lib, chainCopy)).timeline.criticalPath = 1 := by
  obtain ⟨itf, hitf', harrive⟩ := arriveAll_of_succeeds h.copies
  obtain rfl := Except.ok.inj (hitf.symm.trans hitf')
  rw [h.timeline] at harrive
  rw [chainCopy, Timeline.criticalPath_of_arriveAll rfl harrive, h.criticalPath]
  show Timeline.latest 1 1 = 1
  decide

/-- The delay of a copy of depth zero adds up with the path at which an operand of it was
declared in the same cycle. -/
def Stacks (op : Operator) (lib : Library) : Prop :=
  ∀ (x : String) (width : Width) (clocking : Clocking) (expr : String) (between : Script)
    (sub : Handle) (name : String) (wiring : Wiring) (itf : Interface) (formal b : String),
    ∀ p ∈ itf.outputs,
      let before := (op.step (lib, .declare x width clocking expr)).after between
      let placed := before.step (lib, .instantiate sub name wiring)
      op.Succeeds (lib, .declare x width clocking expr) →
      before.timeline.cycle = op.timeline.cycle →
      before.Succeeds (lib, .instantiate sub name wiring) →
      lib.interface sub = .ok itf → itf.depth = 0 →
      wiring.inputs.lookup formal = some (.signal x) →
      wiring.outputs.lookup p.name = some b →
      op.timeline.criticalPath + p.delay ≤ placed.timeline.criticalPath ∧
        op.timeline.criticalPath + p.delay ≤ placed.timeline.floor op.timeline.cycle

theorem IsChain.not_stacks {op : Operator} {lib : Library} {sequential : Bool}
    (h : op.IsChain lib) (hitf : lib.interface 0 = .ok (inverterInterface sequential)) :
    ¬ op.Stacks lib := by
  intro hstacks
  have hpath : op.timeline.criticalPath + 1 ≤
      ((op.step (lib, chainEnd)).step (lib, chainCopy)).timeline.criticalPath :=
    (hstacks "x" (.vector 8) .combinational "~a" [] 0 "u" _ _ "X" "y" ⟨"R", .vector 8, 1⟩
      (by simp [inverterInterface]) h.declares (congrArg Timeline.cycle h.timeline) h.copies hitf
      rfl rfl rfl).1
  rw [h.criticalPath, h.criticalPath_copied hitf] at hpath
  exact absurd hpath (by decide)

end Operator

namespace Workshop

/-- Delays need not stack: one nanosecond of work and a copy that takes another one leave
a critical path of one nanosecond. -/
theorem delays_need_not_stack :
    let settings : Settings := { frequencyMhz := 250 }
    let w := (empty settings (.ofSettings settings)).after (inverterSteps Operator.chainCalls)
    ∃ op ∈ w.bench, ¬ op.Stacks w.library := by
  intro settings w
  obtain ⟨lib, sequential, hitf, hw⟩ := after_inverterSteps Operator.chainCalls
  rw [show w = _ from hw]
  exact ⟨_, List.mem_singleton_self _, (Operator.isChain_chain hitf).not_stacks hitf⟩

/-- On a pipelined target, placing a copy of depth zero leaves the parent in its cycle, with
the latest of the exported delays and of what was there before as critical path and as floor,
and every recorded path stays within the period. So copies that take the whole period can be
chained in one cycle, in any number. -/
theorem latest_arrival_counts (settings : Settings) {device : Device}
    (hpipelined : device.pipelined = true) (hperiod : 0 ≤ device.period) (steps : List Step) :
    let w := (empty settings device).after steps
    (∀ op ∈ w.bench, ∀ (sub : Handle) (name : String) (wiring : Wiring) (itf : Interface),
      w.library.interface sub = .ok itf → itf.depth = 0 →
      op.Succeeds (w.library, .instantiate sub name wiring) →
      let placed := op.step (w.library, .instantiate sub name wiring)
      let delays := wiring.arrivals itf.outputs
      placed.timeline.cycle = op.timeline.cycle ∧
      placed.timeline.criticalPath = delays.foldl Timeline.latest op.timeline.criticalPath ∧
      placed.timeline.floor op.timeline.cycle =
        delays.foldl Timeline.latest (op.timeline.floor op.timeline.cycle) ∧
      (∀ e ∈ delays, e ≤ placed.timeline.floor op.timeline.cycle ∧
        e ≤ placed.timeline.criticalPath) ∧
      placed.timeline.criticalPath ≤ device.period ∧
      ∀ cycle, placed.timeline.peak cycle ≤ device.period) ∧
    (device.period.isFinite → 0 < device.period → ∀ count,
      ∃ op ∈ ((empty settings device).after (cascadeSteps device.period count)).bench,
        op.Cascade op.timeline.cycle count device.period ∧
          op.timeline.criticalPath ≤ device.period) := by
  intro w
  refine ⟨?_, cascade_after_steps settings hpipelined⟩
  intro op hop sub name wiring itf hitf hdepth hsucceeds placed delays
  have htimed : op.Timed device.period :=
    (invariant_after (Library.invariant_timed hpipelined hperiod)
      ⟨rfl, fun hop => by simp [empty, Library.operator?] at hop⟩ (fun _ hop => by cases hop)
      steps).2 op hop
  have hplaced : placed.Timed device.period := htimed.step _
  obtain ⟨itf', hitf', harrive⟩ := Operator.arriveAll_of_succeeds hsucceeds
  obtain rfl := Except.ok.inj (hitf.symm.trans hitf')
  rw [hdepth, Nat.add_zero] at harrive
  have hcycle : placed.timeline.cycle = op.timeline.cycle := Timeline.cycle_of_arriveAll harrive
  have hfloor : ∀ e ∈ delays, e ≤ placed.timeline.floor op.timeline.cycle :=
    Timeline.le_floor_of_arriveAll (htimed.timeline.floor _).1 harrive
  refine ⟨hcycle, Timeline.criticalPath_of_arriveAll rfl harrive,
    Timeline.floor_of_arriveAll harrive, fun e he => ⟨hfloor e he, ?_⟩, hplaced.criticalPath.2,
    fun cycle => hplaced.period_eq ▸ (hplaced.timeline.peak cycle).2⟩
  exact Binary64.le_trans (hfloor e he) (hcycle ▸ hplaced.timeline.floor_le)

/-- The copy of the inverter is placed with the path as it was. Five copies that take four
nanoseconds each are chained in one cycle. -/
theorem latest_arrival_counts_of_inverter :
    let settings : Settings := { frequencyMhz := 250 }
    let device : Device := .ofSettings settings
    let w := (empty settings device).after
      (inverterSteps (Operator.chainCalls ++ [Operator.chainEnd]))
    (device.pipelined = true ∧ 0 ≤ device.period) ∧
      (∃ op ∈ w.bench, op.Succeeds (w.library, Operator.chainCopy) ∧
        (op.step (w.library, Operator.chainCopy)).timeline.criticalPath =
          [1].foldl Timeline.latest op.timeline.criticalPath) ∧
      ∃ op ∈ ((empty settings device).after (cascadeSteps device.period 5)).bench,
        op.Cascade op.timeline.cycle 5 4 ∧ op.timeline.criticalPath ≤ 4 := by
  intro settings device w
  have hpipelined : device.pipelined = true := rfl
  have hfour : device.period = 4 := period_of_250MHz
  have hperiod : 0 ≤ device.period := hfour ▸ (by decide : (0 : Float) ≤ 4)
  have hfinite : device.period.isFinite = true := hfour ▸ (by decide : (4 : Float).isFinite = true)
  have hpositive : 0 < device.period := hfour ▸ (by decide : (0 : Float) < 4)
  obtain ⟨lib, sequential, hitf, hw⟩ :=
    after_inverterSteps (Operator.chainCalls ++ [Operator.chainEnd])
  obtain ⟨hcounts, hcascades⟩ := latest_arrival_counts settings hpipelined hperiod
    (inverterSteps (Operator.chainCalls ++ [Operator.chainEnd]))
  rw [show (empty settings device).after _ = _ from hw] at hcounts
  rw [show w = _ from hw]
  have hcopies := (Operator.isChain_chain hitf).copies
  obtain ⟨-, hpath, -⟩ := hcounts _ (List.mem_singleton_self _) 0 "u" _ _ hitf rfl hcopies
  obtain ⟨op, hop, hcascade, hshort⟩ := hcascades hfinite hpositive 5
  refine ⟨⟨hpipelined, hperiod⟩, ⟨_, List.mem_singleton_self _, hcopies, hpath⟩, op, hop, ?_, ?_⟩
  · exact hfour ▸ hcascade
  · exact hfour ▸ hshort

end Workshop

end Retime
