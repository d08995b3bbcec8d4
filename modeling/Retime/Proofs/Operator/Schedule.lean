import Retime.Operator.Finish
import Retime.Proofs.Agenda

/-! # Schedules

Each assignment, each register and each instance of an operator stands in the schedule
once, in the cycle it belongs to.
-/

namespace Retime

namespace Schedule

variable {β : Type}

/-- The items of one kind, each with the cycle it stands in. -/
def dated (s : Schedule) (f : Slice → List β) : List (Nat × β) :=
  s.slices.flatMap fun slice => (f slice).map (slice.cycle, ·)

theorem map_snd_dated (s : Schedule) (f : Slice → List β) :
    (s.dated f).map (·.2) = s.slices.flatMap f := by
  rw [dated, List.map_flatMap]
  refine List.flatMap_congr fun slice _ => ?_
  rw [List.map_map]
  exact List.map_id _

end Schedule

namespace Operator

variable {op : Operator} {depth : Nat} {exposed : List ExposedOutput} {schedule : Schedule}

theorem le_foldl_max (l : List Nat) (start : Nat) :
    start ≤ l.foldl max start ∧ ∀ a ∈ l, a ≤ l.foldl max start := by
  induction l generalizing start with
  | nil => simp
  | cons b l ih =>
      obtain ⟨hstart, hl⟩ := ih (max start b)
      rw [List.foldl_cons, List.forall_mem_cons]
      exact ⟨by omega, by omega, hl⟩

theorem foldl_max_eq_or_mem (l : List Nat) (start : Nat) :
    l.foldl max start = start ∨ l.foldl max start ∈ l := by
  induction l generalizing start with
  | nil => exact .inl rfl
  | cons a l ih =>
      rw [List.foldl_cons]
      rcases ih (max start a) with hsame | hl
      · rw [hsame]
        rcases Nat.le_total a start with hle | hle
        · exact .inl (Nat.max_eq_left hle)
        · rw [Nat.max_eq_right hle]
          exact .inr List.mem_cons_self
      · exact .inr (List.mem_cons_of_mem a hl)

theorem foldl_max_eq {l : List Nat} {m : Nat} (hm : m ∈ l) (hle : ∀ a ∈ l, a ≤ m) :
    l.foldl max 0 = m := by
  refine Nat.le_antisymm ?_ ((le_foldl_max l 0).2 m hm)
  rcases foldl_max_eq_or_mem l 0 with hzero | hl
  · exact Nat.le_trans (Nat.le_of_eq hzero) (Nat.zero_le m)
  · exact hle _ hl

/-- What a schedule says, given that there is one. -/
structure LaidOut (op : Operator) (depth : Nat) (exposed : List ExposedOutput)
    (schedule : Schedule) : Prop where
  depth_eq : schedule.depth = depth
  sequential_eq : schedule.sequential = true ↔
    0 < op.flow.registerCount ∨ 0 < depth ∨ op.instances.any (·.interface.sequential) = true
  slices_eq : schedule.slices = op.slices depth (exposed.filterMap (·.realignment))
  registerCount_eq : schedule.registerCount = op.flow.registerCount
  outputDelays_eq : schedule.outputDelays = exposed.map (·.delay)

theorem laidOut (h : op.layOut depth exposed = .ok schedule) :
    LaidOut op depth exposed schedule := by
  unfold layOut at h
  dsimp only at h
  split at h
  · cases h
  · obtain rfl := Except.ok.inj h
    exact ⟨rfl, by simp, rfl, rfl, rfl⟩

/-- Without pipelining every operator can be laid out. -/
theorem layOut_ne_error (h : op.timeline.pipelined = false) (e : Fault) :
    op.layOut depth exposed ≠ .error e := by
  unfold layOut
  dsimp only
  split
  next slice hslice =>
    have hlate := List.find?_some hslice
    simp [h] at hlate
  · simp

/-! ## The entries of a signal -/

theorem target_of_assignment? {depth cycle : Nat} {realignments : List Realignment} {s : Signal}
    {a : Assignment} (ha : assignment? depth realignments s = some (cycle, a)) :
    a.target = s.id := by
  unfold assignment? at ha
  split at ha
  · split at ha <;> cases ha <;> rfl
  · cases ha
    rfl
  · cases ha

theorem load?_of_not_isStage {d : Dataflow} {s : Signal} (hstage : s.isStage = false) :
    load? d s = none := by
  unfold load?
  split
  next r depth hdriver => simp [Signal.isStage, hdriver] at hstage
  · rfl

theorem target_of_load? {d : Dataflow} {s : Signal} {l : Load} (hl : load? d s = some l) :
    l.target = s.id := by
  unfold load? at hl
  split at hl
  · obtain ⟨source, -, rfl⟩ := Option.map_eq_some_iff.mp hl
    rfl
  · cases hl

/-! ## The last cycle -/

theorem depth_le_lastCycle : depth ≤ op.lastCycle depth :=
  (le_foldl_max _ depth).1

theorem cycle_le_lastCycle {s : Signal} (hs : s ∈ op.flow.netlist.signals.toList) :
    s.cycle ≤ op.lastCycle depth :=
  (le_foldl_max _ depth).2 _ (List.mem_append_left _ (List.mem_map_of_mem hs))

theorem inputCycle_le_lastCycle {inst : Instance} (hinst : inst ∈ op.instances.toList) :
    inst.inputCycle ≤ op.lastCycle depth :=
  (le_foldl_max _ depth).2 _ (List.mem_append_right _ (List.mem_map_of_mem hinst))

/-- An assignment stands in the cycle of its signal or in the one of exposure. -/
theorem assignment?_le_lastCycle {realignments : List Realignment} {s : Signal} {cycle : Nat}
    {a : Assignment} (hs : s ∈ op.flow.netlist.signals.toList)
    (ha : assignment? depth realignments s = some (cycle, a)) : cycle ≤ op.lastCycle depth := by
  unfold assignment? at ha
  split at ha
  · split at ha
    · cases ha
      exact depth_le_lastCycle
    · cases ha
      exact cycle_le_lastCycle hs
  · cases ha
    exact cycle_le_lastCycle hs
  · cases ha

/-! ## The items of all cycles -/

section Slices

variable (h : LaidOut op depth exposed schedule)
include h

theorem LaidOut.cycles_eq :
    schedule.slices.map (·.cycle) = List.range (op.lastCycle depth + 1) := by
  rw [h.slices_eq, slices, List.map_map]
  exact List.map_id _

/-- Every cycle is in the schedule, and each kind of item is an agenda over the cycles. -/
theorem LaidOut.dated_perm {β : Type} (f : Slice → List β) (l : List (Nat × β))
    (hf : ∀ slice ∈ schedule.slices, f slice = (Agenda.ofList l).items slice.cycle)
    (hl : ∀ entry ∈ l, entry.1 ≤ op.lastCycle depth) : (schedule.dated f).Perm l := by
  have hitems : schedule.dated f = (List.range (op.lastCycle depth + 1)).flatMap fun cycle =>
      ((Agenda.ofList l).items cycle).map (cycle, ·) := by
    rw [← h.cycles_eq, List.flatMap_map]
    refine List.flatMap_congr fun slice hslice => ?_
    rw [hf slice hslice]
  rw [hitems]
  apply Agenda.flatMap_dated_items List.nodup_range
  intro entry hentry
  exact List.mem_range.mpr (Nat.lt_succ_of_le (hl entry hentry))

theorem LaidOut.dated_assignments : (schedule.dated (·.assignments)).Perm
    (op.flow.netlist.signals.toList.filterMap
      (assignment? depth (exposed.filterMap (·.realignment)))) := by
  refine h.dated_perm (·.assignments) _ (fun slice hslice => ?_) fun entry hentry => ?_
  · rw [h.slices_eq] at hslice
    obtain ⟨cycle, -, rfl⟩ := List.mem_map.mp hslice
    rfl
  · obtain ⟨s, hs, hassignment⟩ := List.mem_filterMap.mp hentry
    exact assignment?_le_lastCycle hs hassignment

theorem LaidOut.dated_loads : (schedule.dated (·.loads)).Perm
    (op.flow.netlist.signals.toList.filterMap
      fun s => (load? op.flow s).map (s.cycle, ·)) := by
  refine h.dated_perm (·.loads) _ (fun slice hslice => ?_) fun entry hentry => ?_
  · rw [h.slices_eq] at hslice
    obtain ⟨cycle, -, rfl⟩ := List.mem_map.mp hslice
    rfl
  · obtain ⟨s, hs, hload⟩ := List.mem_filterMap.mp hentry
    obtain ⟨load, -, rfl⟩ := Option.map_eq_some_iff.mp hload
    exact cycle_le_lastCycle hs

theorem LaidOut.dated_instances : (schedule.dated (·.instances)).Perm
    (op.instances.toList.map fun i => (i.inputCycle, i.id)) := by
  refine h.dated_perm (·.instances) _ (fun slice hslice => ?_) fun entry hentry => ?_
  · rw [h.slices_eq] at hslice
    obtain ⟨cycle, -, rfl⟩ := List.mem_map.mp hslice
    rfl
  · obtain ⟨inst, hinst, rfl⟩ := List.mem_map.mp hentry
    exact inputCycle_le_lastCycle hinst

theorem LaidOut.assignments_perm : schedule.assignments.Perm
    ((op.flow.netlist.signals.toList.filterMap
      (assignment? depth (exposed.filterMap (·.realignment)))).map (·.2)) := by
  rw [Schedule.assignments, ← Schedule.map_snd_dated]
  exact h.dated_assignments.map _

theorem LaidOut.loads_perm :
    schedule.loads.Perm (op.flow.netlist.signals.toList.filterMap (load? op.flow)) := by
  have hloads : op.flow.netlist.signals.toList.filterMap (load? op.flow) =
      (op.flow.netlist.signals.toList.filterMap
        fun s => (load? op.flow s).map (s.cycle, ·)).map (·.2) := by
    rw [List.map_filterMap]
    apply List.filterMap_congr
    intro s _
    cases load? op.flow s <;> rfl
  rw [hloads, Schedule.loads, ← Schedule.map_snd_dated]
  exact h.dated_loads.map _

theorem LaidOut.instances_perm :
    (schedule.slices.flatMap (·.instances)).Perm (op.instances.toList.map (·.id)) := by
  have hinstances : op.instances.toList.map (·.id) =
      (op.instances.toList.map fun i => (i.inputCycle, i.id)).map (·.2) := by
    rw [List.map_map]
    rfl
  rw [hinstances, ← Schedule.map_snd_dated]
  exact h.dated_instances.map _

end Slices

end Operator

end Retime
