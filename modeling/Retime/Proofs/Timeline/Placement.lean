import Mathlib.Logic.Function.Basic
import Retime.Proofs.Timeline.Work

/-! # Placements of work

Pieces of work can be placed in cycles in many ways that keep their order. Accruing them cuts as
late as possible: no placement that keeps to the period has a piece in an earlier cycle, and if
the work cannot be accrued there is no placement at all.

The argument is that of a greedy choice. At each piece the timeline is ahead of any placement: it
is in an earlier cycle, or in the same one with a path that is no longer.
-/

namespace Retime.Timeline

open Binary64

/-- The length of the path to which work in a cycle is added. -/
def start (t : Timeline) (cycle : Nat) : Float :=
  if cycle = t.cycle then t.criticalPath else t.floor cycle

/-- The cycles in which pieces of work land that are accrued one after another. -/
def landings (t : Timeline) : List Float → Except Fault (List Nat)
  | [] => .ok []
  | x :: work => do
    let (_, t') ← t.accrue x
    let cycles ← t'.landings work
    return t'.cycle :: cycles

/-- The pieces of work in one cycle, in their order. -/
def workIn (work : List Float) (cycles : List Nat) (cycle : Nat) : List Float :=
  ((work.zip cycles).filter (·.2 = cycle)).map (·.1)

/-- The pieces are placed in cycles from `first` on, in their order, and what is in a cycle fits
the period on top of the path that the cycle starts with. -/
structure Placement (starts : Nat → Float) (period : Float) (first : Nat) (work : List Float)
    (cycles : List Nat) : Prop where
  length_eq : cycles.length = work.length
  ordered : (first :: cycles).Pairwise (· ≤ ·)
  fits : ∀ cycle ∈ cycles,
    (workIn work cycles cycle).foldl (· + ·) (starts cycle) ≤ period

/-- The timeline has used up no more than a placement that goes on from `first`. -/
structure Ahead (t : Timeline) (first : Nat) (starts : Nat → Float) : Prop where
  cycle_le : t.cycle ≤ first
  start_le : ∀ cycle, first ≤ cycle → t.start cycle ≤ starts cycle

variable {t t' : Timeline} {x period : Float} {first cycle : Nat} {work : List Float}
  {cycles : List Nat} {starts : Nat → Float}

/-! ## One piece of work -/

theorem start_cycle (t : Timeline) : t.start t.cycle = t.criticalPath :=
  if_pos rfl

theorem start_of_ne (h : cycle ≠ t.cycle) : t.start cycle = t.floor cycle :=
  if_neg h

theorem Budgeted.start_nonneg (h : t.Budgeted) (cycle : Nat) : 0 ≤ t.start cycle := by
  unfold start
  split
  · exact le_trans (h.floor t.cycle).1 h.floor_le
  · exact (h.floor cycle).1

/-- A piece of work has landed. -/
structure Landed (t : Timeline) (x : Float) (t' : Timeline) : Prop where
  admits : t.Admits x
  floors_eq : t'.floors = t.floors
  path_eq : t'.criticalPath = t.start t'.cycle + x
  cycle_eq : t'.cycle = t.cycle ∧ ¬ t.period < t.criticalPath + x ∨
    t.period < t.criticalPath + x ∧ t.roomAfter x t.cycle = .ok t'.cycle

theorem landed (hpipelined : t.pipelined = true) {a : Accrual} (ht : t.accrue x = .ok (a, t')) :
    t.Landed x t' := by
  unfold accrue at ht
  split at ht
  · cases ht
  next hadmits =>
    rw [not_not] at hadmits
    split at ht
    next hcut =>
      cases hnext : t.roomAfter x t.cycle with
      | error e => simp [hnext, Except.map] at ht
      | ok next =>
          simp only [hnext, Except.map, Except.ok.injEq, Prod.mk.injEq] at ht
          obtain ⟨-, rfl⟩ := ht
          have hcycle : (t.enter next).cycle = next := cycle_enter next
          have hlater : next ≠ t.cycle := Nat.ne_of_gt (lt_of_roomAfter hnext)
          have hpath : (t.enter next).criticalPath = t.floor next := by
            unfold enter
            dsimp only
            split <;> rfl
          refine ⟨hadmits, floors_enter next, ?_, .inr ⟨hcut.2, hnext.trans ?_⟩⟩
          · show (t.enter next).criticalPath + x = t.start (t.enter next).cycle + x
            rw [hcycle, start_of_ne hlater, hpath]
          · exact congrArg Except.ok hcycle.symm
    next hfit =>
      cases ht
      refine ⟨hadmits, rfl, ?_, .inl ⟨rfl, fun hlong => hfit ⟨hpipelined, hlong⟩⟩⟩
      exact congrArg (· + x) t.start_cycle.symm

theorem Landed.floor_eq (h : t.Landed x t') (cycle : Nat) : t'.floor cycle = t.floor cycle := by
  unfold floor
  rw [h.floors_eq]

theorem Landed.cycle_le (h : t.Landed x t') : t.cycle ≤ t'.cycle := by
  rcases h.cycle_eq with ⟨hsame, -⟩ | ⟨-, hnext⟩
  · exact Nat.le_of_eq hsame.symm
  · exact Nat.le_of_lt (lt_of_roomAfter hnext)

/-- What later pieces are added to: in the cycle of the landing, the path with this piece. -/
theorem Landed.start_eq (h : t.Landed x t') (hle : t'.cycle ≤ cycle) :
    t'.start cycle = if cycle = t'.cycle then t.start cycle + x else t.start cycle := by
  by_cases hcycle : cycle = t'.cycle
  · rw [if_pos hcycle, hcycle, start_cycle, h.path_eq]
  · have hlater : cycle ≠ t.cycle := by
      have := h.cycle_le
      omega
    rw [if_neg hcycle, start_of_ne hcycle, start_of_ne hlater, h.floor_eq]

/-- No cycle with room is passed over. -/
theorem roomAfter_le {next : Nat} (h : t.roomAfter x first = .ok next) (hlt : first < cycle)
    (hfits : t.floor cycle + x ≤ t.period) : next ≤ cycle := by
  fun_induction roomAfter t x first with
  | case1 first hfirst hroom =>
      cases h
      exact hlt
  | case2 first hfirst hroom ih =>
      refine ih h (Nat.lt_of_le_of_ne hlt ?_)
      rintro rfl
      exact hroom hfits
  | case3 first hfirst => cases h

/-- The search for room ends with a cycle as long as there is one that can be counted. -/
theorem maxCycle_lt_of_roomAfter {e : Fault} (h : t.roomAfter x first = .error e)
    (hlt : first < cycle) (hfits : t.floor cycle + x ≤ t.period) : maxCycle < cycle := by
  fun_induction roomAfter t x first with
  | case1 first hfirst hroom => cases h
  | case2 first hfirst hroom ih =>
      refine ih h (Nat.lt_of_le_of_ne hlt ?_)
      rintro rfl
      exact hroom hfits
  | case3 first hfirst => omega

/-! ## The greedy choice -/

section Ahead

variable (hbudget : t.Budgeted) (h : t.Ahead first starts) (hx : 0 ≤ x) (hle : first ≤ cycle)
  (hfits : starts cycle + x ≤ t.period)
include hbudget h hx hle hfits

/-- A piece that fits in a cycle of the placement fits there on the timeline. -/
theorem Ahead.fits : t.start cycle + x ≤ t.period :=
  le_trans (add_le_add_right (hbudget.start_nonneg cycle) hx (h.start_le cycle hle)) hfits

/-- If it is too long for the current cycle, that cycle is a later one. -/
theorem Ahead.floor_fits (hlong : t.period < t.criticalPath + x) :
    t.cycle < cycle ∧ t.floor cycle + x ≤ t.period := by
  have hroom := h.fits hbudget hx hle hfits
  have hne : cycle ≠ t.cycle := by
    rintro rfl
    rw [start_cycle] at hroom
    exact not_lt_of_le hroom hlong
  rw [start_of_ne hne] at hroom
  exact ⟨Nat.lt_of_le_of_ne (h.cycle_le.trans hle) (Ne.symm hne), hroom⟩

/-- The timeline stays ahead, wherever the placement has the next piece. -/
theorem Ahead.landed (hlanded : t.Landed x t') :
    t'.Ahead cycle (Function.update starts cycle (starts cycle + x)) := by
  have hcycle : t'.cycle ≤ cycle := by
    rcases hlanded.cycle_eq with ⟨hsame, -⟩ | ⟨hlong, hnext⟩
    · exact Nat.le_trans (Nat.le_of_eq hsame) (h.cycle_le.trans hle)
    · obtain ⟨hlt, hroom⟩ := h.floor_fits hbudget hx hle hfits hlong
      exact roomAfter_le hnext hlt hroom
  refine ⟨hcycle, fun later hlater => ?_⟩
  have hbefore := h.start_le later (hle.trans hlater)
  have hnonneg := hbudget.start_nonneg later
  rw [hlanded.start_eq (hcycle.trans hlater)]
  by_cases hsame : later = cycle
  · -- the placement adds the piece here; the timeline does so here or has done it before
    subst hsame
    have hadded := add_le_add_right hnonneg hx hbefore
    rw [Function.update_self]
    split
    · exact hadded
    · exact le_trans (le_add_of_nonneg hnonneg hx hlanded.admits.1) hadded
  · rw [Function.update_of_ne hsame, if_neg (by omega)]
    exact hbefore

/-- Work fails only if the placement leaves the cycles that can be counted. -/
theorem Ahead.maxCycle_lt (hfinite : x.isFinite) {e : Fault} (ht : t.accrue x = .error e) :
    maxCycle < cycle := by
  have hshort : x ≤ t.period :=
    le_trans (le_add_of_left_nonneg (hbudget.start_nonneg cycle) hx)
      (h.fits hbudget hx hle hfits)
  have hadmits : t.Admits x :=
    ⟨hfinite, not_lt_of_le hx, fun hlong => not_lt_of_le hshort hlong.2⟩
  unfold accrue at ht
  rw [if_neg (not_not.mpr hadmits)] at ht
  split at ht
  next hcut =>
    cases hnext : t.roomAfter x t.cycle with
    | ok next => simp [hnext, Except.map] at ht
    | error e' =>
        obtain ⟨hlt, hroom⟩ := h.floor_fits hbudget hx hle hfits hcut.2
        exact maxCycle_lt_of_roomAfter hnext hlt hroom
  · cases ht

end Ahead

/-! ## Placements, piece by piece -/

theorem workIn_cons_self (x : Float) (work : List Float) (cycle : Nat) (cycles : List Nat) :
    workIn (x :: work) (cycle :: cycles) cycle = x :: workIn work cycles cycle := by
  simp [workIn]

theorem workIn_cons_of_ne {cycle' : Nat} (h : cycle' ≠ cycle) (x : Float) (work : List Float)
    (cycles : List Nat) :
    workIn (x :: work) (cycle :: cycles) cycle' = workIn work cycles cycle' := by
  simp [workIn, h.symm]

theorem mem_of_mem_workIn (h : x ∈ workIn work cycles cycle) : x ∈ work := by
  obtain ⟨⟨y, c⟩, hmem, rfl⟩ := List.mem_map.mp h
  exact (List.of_mem_zip (List.mem_of_mem_filter hmem)).1

theorem workIn_of_notMem (h : cycle ∉ cycles) : workIn work cycles cycle = [] := by
  rw [workIn, List.map_eq_nil_iff, List.filter_eq_nil_iff]
  rintro ⟨y, c⟩ hmem hc
  rw [decide_eq_true_eq] at hc
  subst hc
  exact h (List.of_mem_zip hmem).2

/-- Further work does not shorten a path. -/
theorem le_foldl_add (hx : 0 ≤ x) (hwork : ∀ y ∈ work, 0 ≤ y ∧ y.isFinite) :
    x ≤ work.foldl (· + ·) x := by
  induction work generalizing x with
  | nil => exact le_refl_of_le hx
  | cons y work ih =>
      obtain ⟨⟨hy, hfinite⟩, hrest⟩ := List.forall_mem_cons.mp hwork
      exact le_trans (le_add_of_nonneg hx hy hfinite) (ih (add_nonneg hx hy) hrest)

section Placement

variable (h : Placement starts period first (x :: work) (cycle :: cycles))
include h

theorem Placement.first_le : first ≤ cycle :=
  List.rel_of_pairwise_cons h.ordered List.mem_cons_self

/-- The first piece fits its cycle. -/
theorem Placement.head_fits (hwork : ∀ y ∈ x :: work, 0 ≤ y ∧ y.isFinite)
    (hstart : 0 ≤ starts cycle) : starts cycle + x ≤ period := by
  obtain ⟨⟨hx, -⟩, hrest⟩ := List.forall_mem_cons.mp hwork
  have hfits := h.fits cycle List.mem_cons_self
  rw [workIn_cons_self, List.foldl_cons] at hfits
  exact le_trans (le_foldl_add (add_nonneg hstart hx) fun y hy =>
    hrest y (mem_of_mem_workIn hy)) hfits

/-- The others are placed from its cycle on, on top of it. -/
theorem Placement.tail :
    Placement (Function.update starts cycle (starts cycle + x)) period cycle work cycles where
  length_eq := Nat.succ.inj h.length_eq
  ordered := h.ordered.of_cons
  fits cycle' hcycle' := by
    have hfits := h.fits cycle' (List.mem_cons_of_mem cycle hcycle')
    by_cases hsame : cycle' = cycle
    · subst hsame
      rw [workIn_cons_self, List.foldl_cons] at hfits
      rwa [Function.update_self]
    · rw [workIn_cons_of_ne hsame] at hfits
      rwa [Function.update_of_ne hsame]

end Placement

/-! ## All work -/

theorem move_accrue {a : Accrual} (ht : t.accrue x = .ok (a, t')) :
    t.move (.accrue x) = .ok t' := by
  simp [move, ht, Except.map]

theorem landings_cons (t : Timeline) (x : Float) (work : List Float) : t.landings (x :: work) =
    (t.accrue x).bind fun r => (r.2.landings work).map (r.2.cycle :: ·) := by
  rw [landings]
  cases t.accrue x with
  | error e => rfl
  | ok r =>
      show (r.2.landings work).bind _ = (r.2.landings work).map _
      cases r.2.landings work <;> rfl

theorem landings_cons_ok (hpipelined : t.pipelined = true)
    (ht : t.landings (x :: work) = .ok cycles) :
    ∃ a t' rest, t.accrue x = .ok (a, t') ∧ t.Landed x t' ∧ t'.landings work = .ok rest ∧
      cycles = t'.cycle :: rest := by
  cases haccrue : t.accrue x with
  | error e => simp [landings_cons, haccrue, Except.bind] at ht
  | ok r =>
      obtain ⟨a, t'⟩ := r
      cases hrest : t'.landings work with
      | error e => simp [landings_cons, haccrue, hrest, Except.bind, Except.map] at ht
      | ok rest =>
          simp only [landings_cons, haccrue, hrest, Except.bind, Except.map, Except.ok.injEq] at ht
          exact ⟨a, t', rest, rfl, landed hpipelined haccrue, hrest, ht.symm⟩

theorem admits_of_landings (hpipelined : t.pipelined = true)
    (ht : t.landings work = .ok cycles) : ∀ x ∈ work, 0 ≤ x ∧ x.isFinite := by
  induction work generalizing t cycles with
  | nil => simp
  | cons x work ih =>
      obtain ⟨a, t', rest, haccrue, hlanded, hrest, -⟩ := landings_cons_ok hpipelined ht
      obtain ⟨hfinite, hneg, -⟩ := hlanded.admits
      have hpipelined' := (pipelined_move (move_accrue haccrue)).trans hpipelined
      exact List.forall_mem_cons.mpr ⟨⟨nonneg_of_isFinite hfinite hneg, hfinite⟩,
        ih hpipelined' hrest⟩

/-- The cycles in which work lands are a placement of it. -/
theorem placement_landings (h : t.Budgeted) (ht : t.landings work = .ok cycles) :
    Placement t.start t.period t.cycle work cycles := by
  induction work generalizing t cycles with
  | nil =>
      obtain rfl := Except.ok.inj ht
      exact ⟨rfl, List.pairwise_singleton _ _, nofun⟩
  | cons x work ih =>
      obtain ⟨a, t', rest, haccrue, hlanded, hrest, rfl⟩ := landings_cons_ok h.pipelined ht
      have hbudget := budgeted_accrue h haccrue
      have hperiod := period_move (move_accrue haccrue)
      obtain ⟨hlength, hordered, hfits⟩ := ih hbudget hrest
      have hfirst : ∀ cycle ∈ rest, t'.cycle ≤ cycle := fun cycle =>
        List.rel_of_pairwise_cons hordered
      refine ⟨congrArg (· + 1) hlength, ?_, fun cycle hcycle => ?_⟩
      · refine List.pairwise_cons.mpr ⟨List.forall_mem_cons.mpr ⟨hlanded.cycle_le, ?_⟩, hordered⟩
        exact fun cycle hcycle => hlanded.cycle_le.trans (hfirst cycle hcycle)
      by_cases hsame : cycle = t'.cycle
      · -- the piece itself opens the path on which the others of its cycle stand
        subst hsame
        have hpath : t.start t'.cycle + x = t'.start t'.cycle := by
          rw [hlanded.start_eq (Nat.le_refl _), if_pos rfl]
        rw [workIn_cons_self, List.foldl_cons, hpath, ← hperiod]
        by_cases hmem : t'.cycle ∈ rest
        · exact hfits _ hmem
        · rw [workIn_of_notMem hmem, List.foldl_nil, start_cycle]
          exact hbudget.path_le
      · have hmem : cycle ∈ rest := (List.mem_cons.mp hcycle).resolve_left hsame
        have hstart := hlanded.start_eq (hfirst cycle hmem)
        rw [if_neg hsame] at hstart
        rw [workIn_cons_of_ne hsame, ← hstart, ← hperiod]
        exact hfits cycle hmem

/-- What lands does so in no later a cycle than it is placed in, and what cannot be accrued can
only be placed in cycles that cannot be counted. -/
theorem Ahead.landings_le (hbudget : t.Budgeted) (h : t.Ahead first starts)
    (hwork : ∀ x ∈ work, 0 ≤ x ∧ x.isFinite)
    (hplaced : Placement starts t.period first work cycles) :
    (∀ landed, t.landings work = .ok landed → List.Forall₂ (· ≤ ·) landed cycles) ∧
      ∀ e, t.landings work = .error e → ∃ cycle ∈ cycles, maxCycle < cycle := by
  induction work generalizing t first starts cycles with
  | nil =>
      obtain rfl := List.length_eq_zero_iff.mp hplaced.length_eq
      refine ⟨fun landed hlanded => ?_, nofun⟩
      obtain rfl := Except.ok.inj hlanded
      exact .nil
  | cons x work ih =>
      obtain ⟨cycle, rest, rfl⟩ : ∃ cycle rest, cycles = cycle :: rest :=
        List.exists_cons_of_length_eq_add_one hplaced.length_eq
      obtain ⟨⟨hx, hfinite⟩, hwork'⟩ := List.forall_mem_cons.mp hwork
      have hle := hplaced.first_le
      have hstart := le_trans (hbudget.start_nonneg cycle) (h.start_le cycle hle)
      have hfits := hplaced.head_fits hwork hstart
      cases haccrue : t.accrue x with
      | error e =>
          have hlate := h.maxCycle_lt hbudget hx hle hfits hfinite haccrue
          refine ⟨fun landed hlanded => ?_, fun _ _ => ⟨cycle, List.mem_cons_self, hlate⟩⟩
          simp [landings_cons, haccrue, Except.bind] at hlanded
      | ok r =>
          obtain ⟨a, t'⟩ := r
          have hlanded := Timeline.landed hbudget.pipelined haccrue
          have hahead := h.landed hbudget hx hle hfits hlanded
          have hperiod := period_move (move_accrue haccrue)
          obtain ⟨hdone, hfails⟩ := ih (budgeted_accrue hbudget haccrue) hahead hwork'
            (hperiod ▸ hplaced.tail)
          refine ⟨fun landed ht => ?_, fun e ht => ?_⟩
          · obtain ⟨_, _, later, hsame, -, hlater, rfl⟩ := landings_cons_ok hbudget.pipelined ht
            obtain ⟨-, rfl⟩ := Prod.mk.inj (Except.ok.inj (haccrue.symm.trans hsame))
            exact .cons hahead.cycle_le (hdone later hlater)
          · cases hrest : t'.landings work with
            | ok later => simp [landings_cons, haccrue, hrest, Except.bind, Except.map] at ht
            | error e' =>
                obtain ⟨late, hlate, hlt⟩ := hfails e' hrest
                exact ⟨late, List.mem_cons_of_mem cycle hlate, hlt⟩

theorem Budgeted.ahead (h : t.Budgeted) : t.Ahead t.cycle t.start :=
  ⟨Nat.le_refl _, fun cycle _ => le_refl_of_le (h.start_nonneg cycle)⟩

/-- On a pipelined target, work that is accrued piece by piece is placed as early as its order,
the arrivals in each cycle and the period allow, whatever was done on the timeline before; and if
a piece cannot be accrued, the work cannot be placed in cycles that can be counted. -/
theorem implicit_cuts_are_earliest {period : Float} (hperiod : 0 ≤ period) (moves : List Move)
    (work : List Float) :
    let t := ({ period, pipelined := true } : Timeline).follow moves
    (∀ landed, t.landings work = .ok landed →
      Placement t.start period t.cycle work landed ∧
        ∀ cycles, Placement t.start period t.cycle work cycles →
          List.Forall₂ (· ≤ ·) landed cycles) ∧
    ∀ e, t.landings work = .error e → (∀ x ∈ work, 0 ≤ x ∧ x.isFinite) →
      ∀ cycles, Placement t.start period t.cycle work cycles →
        ∃ cycle ∈ cycles, maxCycle < cycle := by
  intro t
  have hbudget : t.Budgeted := budgeted_follow (budgeted_start hperiod) moves
  have hsame : t.period = period := period_follow moves
  rw [← hsame]
  refine ⟨fun landed ht => ⟨placement_landings hbudget ht, fun cycles hplaced => ?_⟩,
    fun e ht hwork cycles hplaced => ?_⟩
  · have hwork := admits_of_landings hbudget.pipelined ht
    exact (hbudget.ahead.landings_le hbudget hwork hplaced).1 landed ht
  · exact (hbudget.ahead.landings_le hbudget hwork hplaced).2 e ht

/-- A piece of length two does not fit after one of length three, nor in the cycle after it, in
which something arrives at three. -/
theorem cut_after_arrival :
    let t := ({ period := 4, pipelined := true } : Timeline).follow [.arrive 1 3]
    (0 : Float) ≤ 4 ∧ t.landings [3, 2] = .ok [0, 2] ∧
      ∀ cycles, Placement t.start 4 t.cycle [3, 2] cycles →
        List.Forall₂ (· ≤ ·) [0, 2] cycles := by
  intro t
  have hperiod : (0 : Float) ≤ 4 := by decide
  have hlanded : t.landings [3, 2] = .ok [0, 2] := by decide +kernel
  exact ⟨hperiod, hlanded,
    ((implicit_cuts_are_earliest hperiod [.arrive 1 3] [3, 2]).1 [0, 2] hlanded).2⟩

end Retime.Timeline
