import Retime.Proofs.Operator.Frame
import Retime.Proofs.Operator.Instantiate
import Retime.Proofs.Operator.Schedule
import Retime.Proofs.Timeline.Work

/-! # Cycles that can be counted

As long as no call asks for a cycle after the last one, no such cycle is ever recorded. The
timeline checks where it goes by itself, and so does the placement of a copy; a stage is never
valid later than the cycle for which its line is lengthened, even if a name is taken on the
way; and outputs are exposed in a cycle that was recorded before.
-/

namespace Retime

open Retime.Action

/-! ## The timeline -/

namespace Timeline

variable {t t' : Timeline} {x : Float}

theorem laterCycle_le_maxCycle {cycle offset later : Nat}
    (h : laterCycle cycle offset = .ok later) : later ≤ maxCycle := by
  unfold laterCycle at h
  split at h
  next hle => exact Except.ok.inj h ▸ hle
  · cases h

theorem roomAfter_le_maxCycle {cycle next : Nat} (h : t.roomAfter x cycle = .ok next) :
    next ≤ maxCycle := by
  fun_induction roomAfter t x cycle with
  | case1 cycle hcycle hroom =>
      cases h
      exact hcycle
  | case2 cycle hcycle hroom ih => exact ih h
  | case3 cycle hcycle => cases h

theorem cycle_accrue_le {a : Accrual} (ht : t.accrue x = .ok (a, t'))
    (hcycle : t.cycle ≤ maxCycle) : t'.cycle ≤ maxCycle := by
  unfold accrue at ht
  split at ht
  · cases ht
  · split at ht
    · cases hnext : t.roomAfter x t.cycle with
      | error e =>
          rw [hnext] at ht
          cases ht
      | ok next =>
          rw [hnext] at ht
          cases ht
          show (t.enter next).cycle ≤ maxCycle
          rw [cycle_enter]
          exact roomAfter_le_maxCycle hnext
    · cases ht
      exact hcycle

/-- The cycle that a move names, if it names one. -/
def Move.target? : Move → Option Nat
  | .enter cycle | .jump cycle | .join cycle => some cycle
  | _ => none

/-- A move ends in a cycle that can be counted if it starts in one and names no other. -/
theorem cycle_move_le {m : Move} (ht : t.move m = .ok t') (hcycle : t.cycle ≤ maxCycle)
    (htarget : ∀ cycle, m.target? = some cycle → cycle ≤ maxCycle) : t'.cycle ≤ maxCycle := by
  cases m with
  | enter cycle =>
      cases ht
      rw [cycle_enter]
      exact htarget cycle rfl
  | advance =>
      replace ht : (laterCycle t.cycle 1).map t.enter = .ok t' := ht
      cases hlater : laterCycle t.cycle 1 with
      | error e =>
          rw [hlater] at ht
          cases ht
      | ok later =>
          rw [hlater] at ht
          cases ht
          rw [cycle_enter]
          exact laterCycle_le_maxCycle hlater
  | jump cycle =>
      cases ht
      unfold jump
      split
      · exact hcycle
      · rw [cycle_enter]
        exact htarget cycle rfl
  | join cycle =>
      cases ht
      unfold join
      split
      · rw [cycle_enter]
        exact htarget cycle rfl
      · exact hcycle
  | accrue x =>
      replace ht : (t.accrue x).map (·.2) = .ok t' := ht
      cases haccrue : t.accrue x with
      | error e =>
          rw [haccrue] at ht
          cases ht
      | ok accrued =>
          rw [haccrue] at ht
          cases ht
          exact cycle_accrue_le haccrue hcycle
  | arrive cycle x =>
      rw [cycle_of_arrive ht]
      exact hcycle
  | setCriticalPath x =>
      replace ht : t.setCriticalPath x = .ok t' := ht
      unfold setCriticalPath at ht
      split at ht
      · cases ht
        exact hcycle
      · cases ht

end Timeline

/-! ## The dataflow -/

namespace Dataflow

/-- Every signal is valid in a cycle that can be counted. -/
def Counted (d : Dataflow) : Prop :=
  ∀ {id s}, d.netlist.signal? id = some s → s.cycle ≤ maxCycle

theorem Counted.find {d : Dataflow} (h : d.Counted) {name : String} {s : Signal}
    (hs : d.netlist.find name = .ok s) : s.cycle ≤ maxCycle := by
  unfold Netlist.find at hs
  split at hs
  next s' hs' =>
    obtain ⟨id, -, hid⟩ := Option.bind_eq_some_iff.mp hs'
    exact Except.ok.inj hs ▸ h hid
  · cases hs

theorem keeps_declare_counted {decl : Declaration} (hcycle : decl.cycle ≤ maxCycle) :
    Keeps Counted (declare decl) := by
  refine fun d hd => wp_declare.mpr ⟨fun _ => hd, fun _ {id s} hs => ?_⟩
  rcases Netlist.signal?_add_cases hs with ⟨-, rfl⟩ | hs
  · exact hcycle
  · exact hd hs

theorem keeps_addStages_counted {root : Signal} {count depth : Nat}
    (h : ∀ k, depth ≤ k → k < depth + count → root.cycle + k ≤ maxCycle) (stem : String) :
    Keeps Counted (addStages root stem count depth) := by
  induction count generalizing depth with
  | zero => exact keeps_pure ()
  | succ count ih =>
      have hstage : Keeps Counted (addStage root stem depth) :=
        keeps_bind (keeps_declare_counted (h depth (Nat.le_refl _) (by omega))) fun id =>
          keeps_bind (keeps_report _) fun _ => keeps_modify fun _ hd => hd
      exact keeps_bind hstage fun _ => ih fun k hk hlt => h k (by omega) (by omega)

theorem keeps_resolve_counted {cycle : Nat} (hcycle : cycle ≤ maxCycle) (s : Signal) :
    Keeps Counted (resolve s cycle) := by
  refine keeps_ite (keeps_stop _) (keeps_ite (keeps_pure _) (keeps_bind keeps_get fun d => ?_))
  dsimp only
  split
  · exact keeps_pure _
  · -- no stage is asked for beyond the gap, whatever the root is
    refine keeps_bind (keeps_addStages_counted (fun k hk hlt => by omega) _) fun _ => ?_
    exact keeps_bind keeps_get fun d' =>
      keeps_bind (keeps_modify fun _ hd => hd) fun _ => keeps_pure _

end Dataflow

/-! ## Operators -/

/-- A call that asks for no cycle after the last one. -/
def Call.Countable : Call → Prop
  | .setCycle cycle => cycle ≤ maxCycle
  | _ => True

namespace Operator

open Dataflow Timeline

/-- All cycles of an operator can be counted. -/
structure Counted (op : Operator) : Prop where
  timeline : op.timeline.cycle ≤ maxCycle
  flow : op.flow.Counted
  instances : ∀ inst ∈ op.instances, inst.inputCycle ≤ maxCycle ∧ inst.outputCycle ≤ maxCycle
  depth : ∀ schedule, op.schedule = some schedule → schedule.depth ≤ maxCycle

variable {op : Operator} {lib : Library} {c : Call}

theorem counted_blank (handle : Handle) (name : String) (period : Float) (pipelined : Bool) :
    (blank handle name period pipelined).Counted where
  timeline := Nat.zero_le _
  flow hs := by simp [blank, Netlist.signal?] at hs
  instances inst hinst := by simp [blank] at hinst
  depth schedule hschedule := by simp [blank] at hschedule

/-- No output is exposed later than all cycles that were recorded. -/
theorem Counted.exposure (h : op.Counted) : op.exposure ≤ maxCycle := by
  unfold Operator.exposure
  dsimp only
  split
  · exact Nat.zero_le _
  · rcases foldl_max_eq_or_mem _ 0 with hzero | hmem
    · rw [hzero]
      exact Nat.zero_le _
    · rcases List.mem_append.mp hmem with hout | hinst
      · obtain ⟨out, -, hcycle⟩ := List.mem_filterMap.mp hout
        obtain ⟨s, hs, hcycle⟩ := Option.map_eq_some_iff.mp hcycle
        rw [← hcycle]
        exact h.flow hs
      · obtain ⟨inst, hinst, hcycle⟩ := List.mem_map.mp hinst
        rw [← hcycle]
        exact (h.instances inst (Array.mem_toList_iff.mp hinst)).2

/-! ## The pieces of calls -/

theorem keeps_onFlow_counted {α : Type} {m : Action Fault Dataflow α}
    (hm : Keeps Dataflow.Counted m) : Keeps Counted (onFlow m) := by
  intro op hop
  apply wp_onFlow.mpr
  apply (hm op.flow hop.flow).mono
  · exact fun _ d hd => ⟨hop.timeline, hd, hop.instances, hop.depth⟩
  · exact fun _ d hd => ⟨hop.timeline, hd, hop.instances, hop.depth⟩

theorem keeps_onTimeline_counted {m : Move}
    (htarget : ∀ cycle, m.target? = some cycle → cycle ≤ maxCycle) :
    Keeps Counted (onTimeline (·.move m)) := by
  refine fun op hop => wp_onTimeline.mpr ⟨fun t ht => ?_, fun _ _ => hop⟩
  exact ⟨cycle_move_le ht hop.timeline htarget, hop.flow, hop.instances, hop.depth⟩

theorem keeps_declareHere_counted (name : String) (role : Role) (clocking : Clocking)
    (width : Width) (driver : Driver) :
    Keeps Counted (declareHere name role clocking width driver) := by
  intro op hop
  exact wp_bind.mpr (keeps_onFlow_counted (keeps_declare_counted hop.timeline) op hop)

theorem keeps_read_counted {cycle : Nat} (hcycle : cycle ≤ maxCycle) (name : String) :
    Keeps Counted (read name cycle) := by
  refine keeps_bind (keeps_find name) fun s => keeps_ite (keeps_stop _) ?_
  refine keeps_bind (keeps_onFlow_counted (keeps_resolve_counted hcycle s)) fun id => ?_
  refine keeps_bind (keeps_modify fun op hop => ?_) fun _ => keeps_pure id
  exact ⟨hop.timeline, hop.flow, hop.instances, hop.depth⟩

theorem keeps_consume_counted (name : String) : Keeps Counted (consume name) := by
  intro op hop
  refine wp_bind.mpr (keeps_bind (keeps_read_counted hop.timeline name) (fun id => ?_) op hop)
  exact keeps_bind keeps_get fun _ => keeps_pure _

theorem keeps_connectInput_counted {cycle : Nat} (hcycle : cycle ≤ maxCycle) (itf : Interface)
    (wiring : Wiring) (p : Port) : Keeps Counted (connectInput itf wiring cycle p) := by
  unfold connectInput
  split
  · exact keeps_stop _
  · exact keeps_pure _
  next name _ =>
    refine keeps_bind (keeps_find name) fun s => keeps_ite (keeps_stop _) ?_
    exact keeps_bind (keeps_read_counted hcycle name) fun _ => keeps_pure _

theorem keeps_connectOutput_counted {cycle : Nat} (hcycle : cycle ≤ maxCycle) (wiring : Wiring)
    (id : Nat) (p : Port) : Keeps Counted (connectOutput wiring id cycle p) := by
  unfold connectOutput
  split
  · exact keeps_pure _
  · refine keeps_bind (keeps_onFlow_counted (keeps_declare_counted hcycle)) fun signal => ?_
    exact keeps_bind (keeps_onTimeline_counted (m := .arrive cycle p.delay) nofun) fun _ =>
      keeps_pure _

theorem keeps_expose_counted {depth : Nat} (hdepth : depth ≤ maxCycle) (out : OutputPort) :
    Keeps Counted (expose depth out) := by
  intro op hop
  refine wp_bind.mpr ?_
  rw [wp_get]
  split
  · exact hop
  next s hs =>
    have hcarry : Keeps Dataflow.Counted (carry s depth) :=
      keeps_bind (keeps_declare_counted (hop.flow hs)) fun base =>
        keeps_bind (keeps_modify fun _ hd => hd) fun _ =>
          keeps_bind (keeps_resolve_counted hdepth _) fun last => keeps_pure (base, last)
    exact keeps_ite (keeps_pure _)
      (keeps_bind (keeps_onFlow_counted hcarry) fun _ => keeps_pure _) op hop

/-! ## All calls -/

theorem keeps_instantiate_counted (sub : Handle) (name : String) (wiring : Wiring) :
    Keeps Counted (instantiate lib sub name wiring) := by
  intro op hop
  refine wp_instantiate_of (fun itf cycle hadmits => ?_) fun _ _ => hop
  have hcounted := laterCycle_le_maxCycle hadmits.later
  have hinputs : Keeps Counted (forEach (connectInput itf wiring op.timeline.cycle) itf.inputs) :=
    keeps_forEach fun p _ => keeps_connectInput_counted hop.timeline itf wiring p
  have houtputs : Keeps Counted (forEach (connectOutput wiring op.instances.size cycle)
      itf.outputs) := keeps_forEach fun p _ => keeps_connectOutput_counted hcounted wiring _ p
  refine (hinputs op hop).mono (fun inputs op₁ hop₁ => ?_) fun _ _ hop' => hop'
  refine (houtputs op₁ hop₁).mono (fun outputs op₂ hop₂ => ?_) fun _ _ hop' => hop'
  refine ⟨hop₂.timeline, hop₂.flow, fun inst hinst => ?_, hop₂.depth⟩
  rcases Array.mem_push.mp hinst with hinst | rfl
  · exact hop₂.instances inst hinst
  · exact ⟨hop.timeline, hcounted⟩

theorem keeps_finish_counted : Keeps Counted finish := by
  intro op hop
  refine wp_bind.mpr (wp_get.mpr (wp_bind.mpr (wp_get.mpr ?_)))
  refine keeps_bind (keeps_forEach fun out _ => keeps_expose_counted hop.exposure out)
    (fun outputs => keeps_bind keeps_get fun op' => ?_) op hop
  intro op'' hop''
  refine wp_bind.mpr (wp_ofExcept.mpr ⟨fun schedule hschedule => ?_, fun _ _ => hop''⟩)
  refine keeps_bind (keeps_forEach fun e _ => keeps_report e)
    (fun _ => keeps_bind (keeps_report _) fun _ => keeps_modify fun op₁ hop₁ => ?_) op'' hop''
  refine ⟨hop₁.timeline, hop₁.flow, hop₁.instances, fun schedule' hsame => ?_⟩
  rw [← Option.some.inj hsame, (laidOut hschedule).depth_eq]
  exact hop.exposure

/-- Every call that asks for no later cycle leaves cycles that can be counted, whether it
succeeds or fails. -/
theorem keeps_execute_counted (lib : Library) (hc : c.Countable) :
    Keeps Counted (execute lib c) := by
  cases c with
  | input name width =>
      refine keeps_bind (keeps_bind (keeps_declareHere_counted _ _ _ _ _) fun id => ?_) fun _ =>
        keeps_pure _
      exact keeps_modify fun op hop => ⟨hop.timeline, hop.flow, hop.instances, hop.depth⟩
  | declare name width clocking expr =>
      exact keeps_bind (keeps_declareHere_counted _ _ _ _ _) fun _ => keeps_pure _
  | output name width expr =>
      refine keeps_bind (keeps_bind (keeps_declareHere_counted _ _ _ _ _) fun id => ?_) fun _ =>
        keeps_pure _
      exact keeps_modify fun op hop => ⟨hop.timeline, hop.flow, hop.instances, hop.depth⟩
  | consume name => exact keeps_map (keeps_consume_counted name)
  | consumeField name field =>
      refine keeps_map (keeps_bind (keeps_find name) fun s => ?_)
      split
      · exact keeps_stop _
      · exact keeps_bind (keeps_consume_counted name) fun _ => keeps_pure _
  | setCycle cycle =>
      have htarget : ∀ target, (Move.enter cycle).target? = some target → target ≤ maxCycle :=
        fun target htarget => Option.some.inj htarget ▸ hc
      exact keeps_bind (keeps_onTimeline_counted htarget) fun _ => keeps_pure _
  | advance =>
      exact keeps_bind (keeps_onTimeline_counted (m := .advance) nofun) fun _ => keeps_pure _
  | setCriticalPath delay =>
      exact keeps_bind (keeps_onTimeline_counted (m := .setCriticalPath delay) nofun) fun _ =>
        keeps_pure _
  | accrue delay =>
      refine keeps_bind (fun op hop => ?_) fun _ => keeps_pure _
      refine wp_bind.mpr (wp_get.mpr (wp_bind.mpr (wp_ofExcept.mpr ⟨?_, fun _ _ => hop⟩)))
      rintro ⟨accrual, t⟩ ht
      have hmoved : Counted { op with timeline := t } :=
        ⟨cycle_accrue_le ht hop.timeline, hop.flow, hop.instances, hop.depth⟩
      cases accrual with
      | fitted => exact hmoved
      | cut => exact hmoved
  | jump name =>
      intro op hop
      refine wp_bind.mpr (wp_find.mpr ⟨fun s hs => ?_, fun _ _ => hop⟩)
      have htarget : ∀ target, (Move.jump s.cycle).target? = some target → target ≤ maxCycle :=
        fun target htarget => Option.some.inj htarget ▸ Dataflow.Counted.find hop.flow hs
      exact keeps_bind (keeps_onTimeline_counted htarget) (fun _ => keeps_pure _) op hop
  | join name =>
      intro op hop
      refine wp_bind.mpr (wp_find.mpr ⟨fun s hs => ?_, fun _ _ => hop⟩)
      have htarget : ∀ target, (Move.join s.cycle).target? = some target → target ≤ maxCycle :=
        fun target htarget => Option.some.inj htarget ▸ Dataflow.Counted.find hop.flow hs
      exact keeps_bind (keeps_onTimeline_counted htarget) (fun _ => keeps_pure _) op hop
  | instantiate sub name wiring =>
      exact keeps_bind (keeps_instantiate_counted sub name wiring) fun _ => keeps_pure _
  | finish => exact keeps_bind keeps_finish_counted fun _ => keeps_pure _

end Operator

end Retime
