import Retime.Proofs.Operator.Arrivals
import Retime.Proofs.Operator.Schedule
import Retime.Proofs.Timeline.Peaks

/-! # Reported peaks

The schedule shows for every cycle the longest critical path that was met in it. What an
instance delivers is a floor of its cycle, so it is met there as soon as the cycle is entered,
but not before.
-/

namespace Retime.Operator

open Retime.Action Timeline

/-! ## The timeline in a call -/

/-- The ways in which a call that succeeds changes the timeline. -/
inductive Passes (t : Timeline) : Timeline → Prop where
  | still : Passes t t
  | move {m : Move} {t' : Timeline} (h : t.move m = .ok t') : Passes t t'
  | arrivals {cycle : Nat} {delays : List Float} {t' : Timeline}
      (h : t.arriveAll cycle delays = .ok t') : Passes t t'

variable {op : Operator} {t t' : Timeline}

theorem Passes.tracked (h : Passes t t') (ht : t.Tracked) : t.Observes t' ∧ t'.Tracked := by
  cases h with
  | still => exact ⟨ht.observes_refl, ht⟩
  | move h => exact ht.move h
  | arrivals h => exact ht.arriveAll h

theorem Passes.le_floor (h : Passes t t') {x : Float} {cycle : Nat} (hx : x ≤ t.floor cycle) :
    x ≤ t'.floor cycle := by
  cases h with
  | still => exact hx
  | move h => exact le_floor_of_move h hx
  | arrivals h =>
      exact keeps_arriveAll (P := fun t => x ≤ t.floor cycle)
        (fun _ _ _ hy hmove => le_floor_of_move hmove hy) hx h

theorem passes_of_keeps {α : Type} {m : Action Fault Operator α}
    (hm : m.Keeps fun op' => op'.timeline = op.timeline) :
    m.wp (fun _ op' => Passes op.timeline op'.timeline) (fun _ _ => True) op :=
  (hm op rfl).mono (fun _ _ hsame => hsame ▸ .still) fun _ _ _ => trivial

theorem passes_onTimeline (m : Move) : (onTimeline (·.move m)).wp
    (fun _ op' => Passes op.timeline op'.timeline) (fun _ _ => True) op :=
  wp_onTimeline.mpr ⟨fun _ ht => .move ht, fun _ _ => trivial⟩

theorem passes_accrue (delay : Float) : (accrue delay).wp
    (fun _ op' => Passes op.timeline op'.timeline) (fun _ _ => True) op := by
  simp only [accrue, wp_bind, wp_get, wp_ofExcept]
  refine ⟨?_, fun _ _ => trivial⟩
  rintro ⟨accrual, t⟩ ht
  have hmove : op.timeline.move (.accrue delay) = .ok t := by simp [move, ht, Except.map]
  cases accrual with
  | fitted => exact wp_modify.mpr (.move hmove)
  | cut =>
      rw [wp_bind, wp_report, wp_modify]
      exact .move hmove

theorem passes_execute (lib : Library) (c : Call) : (execute lib c).wp
    (fun _ op' => Passes op.timeline op'.timeline) (fun _ _ => True) op := by
  have hflow : IgnoresFlow fun op' => op'.timeline = op.timeline := ⟨fun _ h => h, fun _ h => h⟩
  cases c with
  | input name width =>
      apply passes_of_keeps
      refine keeps_bind (keeps_bind (keeps_declareHere hflow _ _ _ _ _) fun id => ?_) fun _ =>
        keeps_pure _
      exact keeps_modify fun _ h => h
  | declare name width clocking expr =>
      exact passes_of_keeps (keeps_bind (keeps_declareHere hflow _ _ _ _ _) fun _ => keeps_pure _)
  | output name width expr =>
      apply passes_of_keeps
      refine keeps_bind (keeps_bind (keeps_declareHere hflow _ _ _ _ _) fun id => ?_) fun _ =>
        keeps_pure _
      exact keeps_modify fun _ h => h
  | consume name => exact passes_of_keeps (keeps_map (keeps_consume hflow name))
  | consumeField name field => exact passes_of_keeps (keeps_map (keeps_consumeField hflow name field))
  | setCycle cycle => exact wp_bind.mpr (passes_onTimeline (.enter cycle))
  | advance => exact wp_bind.mpr (passes_onTimeline .advance)
  | accrue delay => exact wp_bind.mpr (passes_accrue delay)
  | setCriticalPath delay => exact wp_bind.mpr (passes_onTimeline (.setCriticalPath delay))
  | jump name =>
      refine wp_bind.mpr (wp_find.mpr ⟨fun s _ => ?_, fun _ _ => trivial⟩)
      exact wp_bind.mpr (passes_onTimeline (.jump s.cycle))
  | join name =>
      refine wp_bind.mpr (wp_find.mpr ⟨fun s _ => ?_, fun _ _ => trivial⟩)
      exact wp_bind.mpr (passes_onTimeline (.join s.cycle))
  | instantiate sub name wiring =>
      refine wp_bind.mpr ((wp_instantiate_arrivals op lib sub name wiring).mono ?_
        fun _ _ _ => trivial)
      exact fun _ _ ⟨_, _, harrive⟩ => .arrivals harrive
  | finish =>
      apply passes_of_keeps
      refine keeps_bind (keeps_bind keeps_get fun _ => keeps_bind keeps_get fun _ => ?_) fun _ =>
        keeps_pure _
      apply keeps_bind (keeps_forEach fun out _ => keeps_expose hflow _ out)
      intro outputs
      apply keeps_bind keeps_get
      intro op'
      apply keeps_bind (keeps_ofExcept _)
      intro schedule
      apply keeps_bind (keeps_forEach fun e _ => keeps_report e)
      intro _
      exact keeps_bind (keeps_report _) fun _ => keeps_modify fun _ h => h

theorem passes_step {entry : Library × Call} (h : op.Succeeds entry) :
    Passes op.timeline (op.step entry).timeline := by
  obtain ⟨-, hstep, answer, hanswer⟩ := execute_of_succeeds h
  rw [hstep]
  exact (passes_execute entry.1 entry.2).of_ok hanswer

/-! ## The paths that are met -/

/-- At some point of the run the cycle was the current one, with a path that is no shorter
than `x`. -/
def Meets (op : Operator) (script : Script) (cycle : Nat) (x : Float) : Prop :=
  ∃ done rest, script = done ++ rest ∧
    (op.after done).timeline.cycle = cycle ∧ x ≤ (op.after done).timeline.criticalPath

theorem meets_cons {entry : Library × Call} {script : Script} {cycle : Nat} {x : Float} :
    op.Meets (entry :: script) cycle x ↔
      op.timeline.cycle = cycle ∧ x ≤ op.timeline.criticalPath ∨
        (op.step entry).Meets script cycle x := by
  constructor
  · rintro ⟨done, rest, hsplit, hcycle, hx⟩
    cases done with
    | nil => exact .inl ⟨hcycle, hx⟩
    | cons entry' done =>
        obtain ⟨rfl, rfl⟩ := List.cons.inj hsplit
        exact .inr ⟨done, rest, rfl, hcycle, hx⟩
  · rintro (⟨hcycle, hx⟩ | ⟨done, rest, rfl, hcycle, hx⟩)
    · exact ⟨[], entry :: script, rfl, hcycle, hx⟩
    · exact ⟨entry :: done, rest, rfl, hcycle, hx⟩

theorem tracked_after (h : op.timeline.Tracked) {script : Script} (hcompletes : op.Completes script) :
    (op.after script).timeline.Tracked := by
  induction script generalizing op with
  | nil => exact h
  | cons entry script ih => exact ih ((passes_step hcompletes.1).tracked h).2 hcompletes.2

/-- The peak of a cycle after a run is the longest path that was met there, or what it was
before. -/
theorem le_peak_iff_meets (h : op.timeline.Tracked) {script : Script}
    (hcompletes : op.Completes script) (cycle : Nat) (x : Float) :
    x ≤ (op.after script).timeline.peak cycle ↔
      x ≤ op.timeline.peak cycle ∨ op.Meets script cycle x := by
  -- the path at which the run starts is below its peak
  have hstart : op.timeline.cycle = cycle ∧ x ≤ op.timeline.criticalPath →
      x ≤ op.timeline.peak cycle := fun ⟨hcycle, hx⟩ =>
    hcycle ▸ Binary64.le_trans hx h.path_le_peak
  induction script generalizing op with
  | nil =>
      refine ⟨.inl, fun hx => hx.elim id ?_⟩
      rintro ⟨done, rest, hsplit, hmet⟩
      obtain ⟨rfl, rfl⟩ := List.append_eq_nil_iff.mp hsplit.symm
      exact hstart hmet
  | cons entry script ih =>
      obtain ⟨hobserves, htracked⟩ := (passes_step hcompletes.1).tracked h
      have hrest : x ≤ ((op.step entry).after script).timeline.peak cycle ↔ _ :=
        ih htracked hcompletes.2 fun hmet => (hobserves cycle x).mpr (.inr hmet)
      rw [after_cons, hrest, hobserves, meets_cons]
      constructor
      · rintro ((hpeak | hmet) | hmeets)
        · exact .inl hpeak
        · exact .inr (.inr ⟨[], script, rfl, hmet⟩)
        · exact .inr (.inr hmeets)
      · rintro (hpeak | hmet | hmeets)
        · exact .inl (.inl hpeak)
        · exact .inl (.inl (hstart hmet))
        · exact .inr hmeets

/-! ## What instances deliver -/

/-- The delay of every connected output is below the floor of the cycle in which it is valid. -/
def Arrived (op : Operator) (inst : Instance) : Prop :=
  ∀ p formal id, (p, formal, some id) ∈ inst.interface.outputs.zip inst.outputs →
    ∃ s, op.flow.netlist.signal? id = some s ∧ p.delay ≤ op.timeline.floor s.cycle

/-- A new instance has arrived. -/
theorem Placement.arrived {lib : Library} {sub : Handle} {name : String} {wiring : Wiring}
    {op' : Operator} {inst : Instance} (h : Placement lib sub name wiring op op' inst)
    (htracked : op.timeline.Tracked) {itf : Interface} (hitf : lib.interface sub = .ok itf)
    (harrive : op.timeline.arriveAll (op.timeline.cycle + itf.depth)
      (wiring.arrivals itf.outputs) = .ok op'.timeline) : op'.Arrived inst := by
  obtain rfl : itf = inst.interface :=
    Except.ok.inj (hitf.symm.trans (interface_of_subInterface h.interface))
  intro p formal id hmem
  have hyields := (List.forall₂_iff_zip.mp h.yields).2 hmem
  cases hyields with
  | signal s bound mem role driver cycle_eq width =>
      refine ⟨s, mem, ?_⟩
      rw [cycle_eq, h.outputCycle_eq, h.inputCycle_eq]
      apply le_floor_of_arriveAll (htracked.floor _) harrive
      exact Wiring.mem_arrivals (List.of_mem_zip hmem).1 bound

theorem arrived_step (hop : op.Consistent) (htracked : op.timeline.Tracked)
    (h : ∀ inst ∈ op.instances, op.Arrived inst) {entry : Library × Call}
    (hsucceeds : op.Succeeds entry) :
    ∀ inst ∈ (op.step entry).instances, (op.step entry).Arrived inst := by
  have hperformed := performed_of_succeeds hop.sound hsucceeds
  have hpasses := passes_step hsucceeds
  -- what arrived before is still there
  have hkept : ∀ inst ∈ op.instances, (op.step entry).Arrived inst := by
    intro inst hinst p formal id hmem
    obtain ⟨s, hs, hfloor⟩ := h inst hinst p formal id hmem
    exact ⟨s, hperformed.persists.flow.netlist _ _ hs, hpasses.le_floor hfloor⟩
  intro inst hinst
  rcases placement_of_step hop.sound entry with hsame | ⟨sub, name, wiring, inst', hcall, hplaced⟩
  · exact hkept inst (hsame ▸ hinst)
  · rw [hplaced.instances] at hinst
    rcases Array.mem_push.mp hinst with hold | rfl
    · exact hkept inst hold
    · obtain ⟨lib, c⟩ := entry
      obtain rfl : c = .instantiate sub name wiring := hcall
      obtain ⟨itf, hitf, harrive⟩ := arriveAll_of_succeeds hsucceeds
      exact hplaced.arrived htracked hitf harrive

theorem arrived_after (hop : op.Consistent) (htracked : op.timeline.Tracked)
    (h : ∀ inst ∈ op.instances, op.Arrived inst) {script : Script}
    (hcompletes : op.Completes script) :
    ∀ inst ∈ (op.after script).instances, (op.after script).Arrived inst := by
  induction script generalizing op with
  | nil => exact h
  | cons entry script ih =>
      have hstep := performed_of_succeeds hop.sound hcompletes.1
      exact ih (hstep.consistent hop) ((passes_step hcompletes.1).tracked htracked).2
        (arrived_step hop htracked h hcompletes.1) hcompletes.2

/-- What arrived is below the current path while its cycle is the current one. -/
theorem Arrived.le_criticalPath {inst : Instance} (h : op.Arrived inst)
    (htracked : op.timeline.Tracked) {p : Port} {formal : String} {id : SignalId} {s : Signal}
    (hmem : (p, formal, some id) ∈ inst.interface.outputs.zip inst.outputs)
    (hs : op.flow.netlist.signal? id = some s) (hcycle : op.timeline.cycle = s.cycle) :
    p.delay ≤ op.timeline.criticalPath := by
  obtain ⟨s', hs', hfloor⟩ := h p formal id hmem
  obtain rfl := Option.some.inj (hs.symm.trans hs')
  exact Binary64.le_trans (hcycle ▸ hfloor) htracked.floor_le

/-- What a placed instance delivers is met whenever its cycle is the current one. -/
theorem meets_of_placed (hop : op.Consistent) (htracked : op.timeline.Tracked)
    (h : ∀ inst ∈ op.instances, op.Arrived inst) {done rest : Script}
    (hcompletes : op.Completes (done ++ rest)) {inst : Instance}
    (hinst : inst ∈ (op.after done).instances) {p : Port} {formal : String} {id : SignalId}
    {s : Signal} (hmem : (p, formal, some id) ∈ inst.interface.outputs.zip inst.outputs)
    (hs : (op.after (done ++ rest)).flow.netlist.signal? id = some s)
    (hcycle : (op.after done).timeline.cycle = s.cycle) :
    op.Meets (done ++ rest) s.cycle p.delay := by
  obtain ⟨hdone, hrest⟩ := completes_append.mp hcompletes
  have harrived := arrived_after hop htracked h hdone inst hinst
  obtain ⟨s', hs', -⟩ := harrived p formal id hmem
  have hkept := (persists_after (consistent_after hop hdone) hrest).flow.netlist _ _ hs'
  rw [← after_append, hs] at hkept
  obtain rfl := Option.some.inj hkept
  exact ⟨done, rest, rfl, hcycle,
    harrived.le_criticalPath (tracked_after htracked hdone) hmem hs' hcycle⟩

end Retime.Operator
