import Retime.Proofs.Binary64.Sum
import Retime.Timeline

/-! # The budget of a cycle

On a pipelined timeline the critical path of every cycle stays within the clock
period and never drops below the arrivals in that cycle. Every way of moving along
the timeline keeps this, and nothing but the order of delays and the fact that adding
a delay does not lead downwards is used.
-/

namespace Retime.Timeline

open Binary64

/-- The ways of moving along a timeline and of recording work on it. -/
inductive Move where
  | enter (cycle : Nat)
  | advance
  | jump (cycle : Nat)
  | join (cycle : Nat)
  | accrue (x : Float)
  | arrive (cycle : Nat) (x : Float)
  | setCriticalPath (x : Float)

def move (t : Timeline) : Move → Except Fault Timeline
  | .enter cycle => .ok (t.enter cycle)
  | .advance => t.advance
  | .jump cycle => .ok (t.jump cycle)
  | .join cycle => .ok (t.join cycle)
  | .accrue x => (t.accrue x).map (·.2)
  | .arrive cycle x => t.arrive cycle x
  | .setCriticalPath x => t.setCriticalPath x

/-- The timeline after a move that may fail. -/
def attempt (t : Timeline) (m : Move) : Timeline :=
  match t.move m with
  | .ok t' => t'
  | .error _ => t

/-- The timeline after any number of moves. -/
def follow (t : Timeline) (moves : List Move) : Timeline :=
  moves.foldl attempt t

/-- A path that a cycle can hold. -/
def InPeriod (t : Timeline) (x : Float) : Prop :=
  0 ≤ x ∧ x ≤ t.period

/-- All recorded arrivals and peaks fit the period. -/
structure Bounded (t : Timeline) : Prop where
  pipelined : t.pipelined = true
  period_nonneg : 0 ≤ t.period
  floors : ∀ (cycle : Nat) (x : Float), t.floors[cycle]? = some x → t.InPeriod x
  peaks : ∀ (cycle : Nat) (x : Float), t.peaks[cycle]? = some x → t.InPeriod x

/-- The current cycle starts at its floor, stays within the period, and its peak
accounts for the path that was reached. -/
structure Budgeted (t : Timeline) : Prop extends Bounded t where
  floor_le : t.floor t.cycle ≤ t.criticalPath
  path_le : t.criticalPath ≤ t.period
  path_le_peak : 0 < t.criticalPath → t.criticalPath ≤ t.peak t.cycle

/-! ## Recorded entries -/

theorem zero_le_zero : (0 : Float) ≤ 0 := by
  decide

theorem getElem?_raise (m : Std.TreeMap Nat Float) (cycle cycle' : Nat) (x : Float) :
    (raise m cycle x)[cycle']? =
      if cycle = cycle' then some (if m.getD cycle 0 < x then x else m.getD cycle 0)
      else m[cycle']? := by
  unfold raise
  rw [Std.TreeMap.getElem?_insert]
  by_cases h : cycle = cycle' <;> simp [h]

theorem getD_raise (m : Std.TreeMap Nat Float) (cycle cycle' : Nat) (x : Float) :
    (raise m cycle x).getD cycle' 0 =
      if cycle = cycle' then (if m.getD cycle 0 < x then x else m.getD cycle 0)
      else m.getD cycle' 0 := by
  unfold raise
  rw [Std.TreeMap.getD_insert]
  by_cases h : cycle = cycle' <;> simp [h]

section Bounded

variable {t : Timeline} {m : Std.TreeMap Nat Float}

/-- An entry that is missing counts as zero, which every period can hold. -/
theorem inPeriod_getD (hperiod : 0 ≤ t.period)
    (hm : ∀ (cycle : Nat) (x : Float), m[cycle]? = some x → t.InPeriod x) (cycle : Nat) :
    t.InPeriod (m.getD cycle 0) := by
  rw [Std.TreeMap.getD_eq_getD_getElem?]
  cases h : m[cycle]? with
  | none => exact ⟨zero_le_zero, hperiod⟩
  | some x => exact hm cycle x h

theorem inPeriod_raise (hperiod : 0 ≤ t.period)
    (hm : ∀ (cycle : Nat) (x : Float), m[cycle]? = some x → t.InPeriod x)
    {cycle : Nat} {x : Float} (hx : t.InPeriod x) (cycle' : Nat) (y : Float)
    (hy : (raise m cycle x)[cycle']? = some y) : t.InPeriod y := by
  rw [getElem?_raise] at hy
  split at hy
  · cases hy
    split
    · exact hx
    · exact inPeriod_getD hperiod hm cycle
  · exact hm cycle' y hy

/-- The entry of a cycle accounts for what it was raised to. -/
theorem le_getD_raise (hperiod : 0 ≤ t.period)
    (hm : ∀ (cycle : Nat) (x : Float), m[cycle]? = some x → t.InPeriod x)
    {x : Float} (hx : t.InPeriod x) (cycle : Nat) : x ≤ (raise m cycle x).getD cycle 0 := by
  rw [getD_raise, if_pos rfl]
  split
  · exact le_refl_of_le hx.1
  next h => exact le_of_not_lt hx.1 (inPeriod_getD hperiod hm cycle).1 h

theorem Bounded.floor (h : t.Bounded) (cycle : Nat) : t.InPeriod (t.floor cycle) :=
  inPeriod_getD h.period_nonneg h.floors cycle

theorem Bounded.peak (h : t.Bounded) (cycle : Nat) : t.InPeriod (t.peak cycle) :=
  inPeriod_getD h.period_nonneg h.peaks cycle

/-- A delay that is admitted fits the period. -/
theorem Bounded.inPeriod_of_admits (h : t.Bounded) {x : Float} (hx : t.Admits x) :
    t.InPeriod x := by
  obtain ⟨hfin, hneg, hlong⟩ := hx
  have hnonneg := nonneg_of_isFinite hfin hneg
  refine ⟨hnonneg, le_of_not_lt hnonneg h.period_nonneg ?_⟩
  exact fun hlt => hlong ⟨h.pipelined, hlt⟩

end Bounded

/-! ## Moves -/

variable {t t' : Timeline}

/-- The start of a cycle is within the budget, whatever was reached before. -/
theorem Bounded.enter (h : t.Bounded) (cycle : Nat) : (t.enter cycle).Budgeted := by
  have hfloor := h.floor cycle
  unfold Timeline.enter
  dsimp only
  split
  · refine ⟨⟨h.pipelined, h.period_nonneg, h.floors, ?_⟩, ?_, hfloor.2, ?_⟩
    · exact inPeriod_raise h.period_nonneg h.peaks hfloor
    · exact le_refl_of_le hfloor.1
    · exact fun _ => le_getD_raise h.period_nonneg h.peaks hfloor cycle
  next hpos =>
    exact ⟨⟨h.pipelined, h.period_nonneg, h.floors, h.peaks⟩, le_refl_of_le hfloor.1,
      hfloor.2, fun h' => absurd h' hpos⟩

/-- Setting the critical path to a value between floor and period. -/
theorem Bounded.reach (h : t.Bounded) {x : Float} (hfloor : t.floor t.cycle ≤ x)
    (hx : x ≤ t.period) : (t.reach x).Budgeted := by
  have hperiod : t.InPeriod x := ⟨le_trans (h.floor t.cycle).1 hfloor, hx⟩
  refine ⟨⟨h.pipelined, h.period_nonneg, h.floors, ?_⟩, hfloor, hx, ?_⟩
  · exact inPeriod_raise h.period_nonneg h.peaks hperiod
  · exact fun _ => le_getD_raise h.period_nonneg h.peaks hperiod t.cycle

theorem budgeted_advance (h : t.Budgeted) (ht : t.advance = .ok t') : t'.Budgeted := by
  unfold advance at ht
  cases hnext : laterCycle t.cycle 1 with
  | error e => simp [hnext, Except.map] at ht
  | ok next =>
      simp only [hnext, Except.map, Except.ok.injEq] at ht
      exact ht ▸ h.toBounded.enter next

theorem budgeted_jump (h : t.Budgeted) (cycle : Nat) : (t.jump cycle).Budgeted := by
  unfold jump
  split
  · exact h
  · exact h.toBounded.enter cycle

theorem budgeted_join (h : t.Budgeted) (cycle : Nat) : (t.join cycle).Budgeted := by
  unfold join
  split
  · exact h.toBounded.enter cycle
  · exact h

/-- The bounds survive an arrival that is admitted. -/
theorem Bounded.raise_floors (h : t.Bounded) {x : Float} (hx : t.InPeriod x) (cycle : Nat) :
    { t with floors := raise t.floors cycle x }.Bounded :=
  ⟨h.pipelined, h.period_nonneg, inPeriod_raise h.period_nonneg h.floors hx, h.peaks⟩

/-- The floor of the current cycle after an arrival is below whatever is above the old
floor and, if it concerns the current cycle, above the arrival. -/
theorem floor_raise_le {x y : Float} (cycle : Nat)
    (hfloor : t.floor t.cycle ≤ y) (hx : cycle = t.cycle → x ≤ y) :
    { t with floors := raise t.floors cycle x }.floor t.cycle ≤ y := by
  show (raise t.floors cycle x).getD t.cycle 0 ≤ y
  rw [getD_raise]
  by_cases hcycle : cycle = t.cycle
  · rw [if_pos hcycle]
    split
    · exact hx hcycle
    · exact hcycle ▸ hfloor
  · rw [if_neg hcycle]
    exact hfloor

/-- An arrival raises the floor, and in the current cycle the critical path with it. -/
theorem budgeted_arrive (h : t.Budgeted) {cycle : Nat} {x : Float}
    (ht : t.arrive cycle x = .ok t') : t'.Budgeted := by
  unfold arrive at ht
  by_cases hadmits : t.Admits x
  · have hx := h.inPeriod_of_admits hadmits
    have hbounded := h.toBounded.raise_floors hx cycle
    rw [if_pos hadmits] at ht
    dsimp only at ht
    by_cases hraise : cycle = t.cycle ∧ t.criticalPath < x
    · rw [if_pos hraise] at ht
      obtain rfl := Except.ok.inj ht
      refine hbounded.reach ?_ hx.2
      have hlow := le_trans h.floor_le (le_of_lt hraise.2)
      exact floor_raise_le cycle hlow fun _ => le_refl_of_le hx.1
    · rw [if_neg hraise] at ht
      obtain rfl := Except.ok.inj ht
      refine ⟨hbounded, ?_, h.path_le, h.path_le_peak⟩
      apply floor_raise_le cycle h.floor_le
      intro hcycle
      exact le_of_not_lt hx.1 h.floor_le fun hlt => hraise ⟨hcycle, hlt⟩
  · rw [if_neg hadmits] at ht
    cases ht

/-- The cycle that work moves to has room for it. -/
theorem roomAfter_fits {x : Float} {cycle next : Nat} (h : t.roomAfter x cycle = .ok next) :
    t.floor next + x ≤ t.period := by
  fun_induction roomAfter t x cycle with
  | case1 cycle hcycle hroom =>
      cases h
      exact hroom
  | case2 cycle hcycle hroom ih => exact ih h
  | case3 cycle hcycle => cases h

theorem budgeted_accrue (h : t.Budgeted) {x : Float} {a : Accrual}
    (ht : t.accrue x = .ok (a, t')) : t'.Budgeted := by
  unfold accrue at ht
  split at ht
  · cases ht
  next hadmits =>
    rw [not_not] at hadmits
    have hx := h.inPeriod_of_admits hadmits
    have hpath : 0 ≤ t.criticalPath := le_trans (h.floor t.cycle).1 h.floor_le
    have hgrow := le_add_of_nonneg hpath hx.1 hadmits.1
    split at ht
    next hcut =>
      cases hnext : t.roomAfter x t.cycle with
      | error e => simp [hnext, Except.map] at ht
      | ok next =>
          simp only [hnext, Except.map, Except.ok.injEq, Prod.mk.injEq] at ht
          obtain ⟨-, rfl⟩ := ht
          -- the cut charges the whole delay on top of the floor of the new cycle
          have henter := h.toBounded.enter next
          have hstart : (t.enter next).criticalPath = t.floor next := by
            unfold Timeline.enter
            dsimp only
            split <;> rfl
          have hroom : t.floor next + x ≤ (t.enter next).period := by
            have hperiod : (t.enter next).period = t.period := by
              unfold Timeline.enter
              dsimp only
              split <;> rfl
            rw [hperiod]
            exact roomAfter_fits hnext
          refine henter.toBounded.reach ?_ (hstart ▸ hroom)
          have hnonneg := (h.floor next).1
          exact le_trans henter.floor_le
            (hstart ▸ le_add_of_nonneg hnonneg hx.1 hadmits.1)
    next hfit =>
      cases ht
      apply h.toBounded.reach (le_trans h.floor_le hgrow)
      exact le_of_not_lt hgrow h.period_nonneg fun hlt => hfit ⟨h.pipelined, hlt⟩

theorem budgeted_setCriticalPath (h : t.Budgeted) {x : Float}
    (ht : t.setCriticalPath x = .ok t') : t'.Budgeted := by
  unfold setCriticalPath at ht
  by_cases hadmits : t.Admits x
  · have hx := h.inPeriod_of_admits hadmits
    have hfloor := h.floor t.cycle
    rw [if_pos hadmits] at ht
    obtain rfl := Except.ok.inj ht
    by_cases hlt : t.floor t.cycle < x
    · rw [if_pos hlt]
      exact h.toBounded.reach (le_of_lt hlt) hx.2
    · rw [if_neg hlt]
      exact h.toBounded.reach (le_refl_of_le hfloor.1) hfloor.2
  · rw [if_neg hadmits] at ht
    cases ht

/-- Every move keeps the budget. -/
theorem budgeted_move (h : t.Budgeted) {m : Move} (ht : t.move m = .ok t') : t'.Budgeted := by
  cases m with
  | enter cycle =>
      cases ht
      exact h.toBounded.enter cycle
  | advance => exact budgeted_advance h ht
  | jump cycle =>
      cases ht
      exact budgeted_jump h cycle
  | join cycle =>
      cases ht
      exact budgeted_join h cycle
  | accrue x =>
      cases haccrue : t.accrue x with
      | error e => simp [move, haccrue, Except.map] at ht
      | ok r =>
          simp only [move, haccrue, Except.map, Except.ok.injEq] at ht
          exact ht ▸ budgeted_accrue h haccrue
  | arrive cycle x => exact budgeted_arrive h ht
  | setCriticalPath x => exact budgeted_setCriticalPath h ht

theorem budgeted_attempt (h : t.Budgeted) (m : Move) : (t.attempt m).Budgeted := by
  unfold attempt
  split
  next ht => exact budgeted_move h ht
  · exact h

theorem budgeted_follow (h : t.Budgeted) (moves : List Move) : (t.follow moves).Budgeted := by
  unfold follow
  induction moves generalizing t with
  | nil => exact h
  | cons m moves ih => exact ih (budgeted_attempt h m)

/-! ## What stays when a cycle is entered -/

@[simp] theorem cycle_enter (cycle : Nat) : (t.enter cycle).cycle = cycle := by
  unfold enter
  dsimp only
  split <;> rfl

@[simp] theorem pipelined_enter (cycle : Nat) : (t.enter cycle).pipelined = t.pipelined := by
  unfold enter
  dsimp only
  split <;> rfl

theorem period_enter (cycle : Nat) : (t.enter cycle).period = t.period := by
  unfold enter
  dsimp only
  split <;> rfl

/-- No move changes the target. -/
theorem target_move {m : Move} (ht : t.move m = .ok t') :
    t'.pipelined = t.pipelined ∧ t'.period = t.period := by
  have henter : ∀ cycle, (t.enter cycle).pipelined = t.pipelined ∧
      (t.enter cycle).period = t.period :=
    fun cycle => ⟨pipelined_enter cycle, period_enter cycle⟩
  cases m with
  | enter cycle =>
      cases ht
      exact henter cycle
  | advance =>
      simp only [move, advance] at ht
      cases hnext : laterCycle t.cycle 1 with
      | error e => simp [hnext, Except.map] at ht
      | ok next =>
          simp only [hnext, Except.map, Except.ok.injEq] at ht
          exact ht ▸ henter next
  | jump cycle =>
      cases ht
      unfold jump
      split
      · exact ⟨rfl, rfl⟩
      · exact henter cycle
  | join cycle =>
      cases ht
      unfold join
      split
      · exact henter cycle
      · exact ⟨rfl, rfl⟩
  | accrue x =>
      simp only [move, accrue] at ht
      split at ht
      · cases ht
      · split at ht
        · cases hnext : t.roomAfter x t.cycle with
          | error e => simp [hnext, Except.map] at ht
          | ok next =>
              simp only [hnext, Except.map, Except.ok.injEq] at ht
              exact ht ▸ henter next
        · simp only [Except.map, Except.ok.injEq] at ht
          exact ht ▸ ⟨rfl, rfl⟩
  | arrive cycle x =>
      simp only [move, arrive] at ht
      by_cases hadmits : t.Admits x
      · rw [if_pos hadmits] at ht
        obtain rfl := Except.ok.inj ht
        split <;> exact ⟨rfl, rfl⟩
      · rw [if_neg hadmits] at ht
        cases ht
  | setCriticalPath x =>
      simp only [move, setCriticalPath] at ht
      by_cases hadmits : t.Admits x
      · rw [if_pos hadmits] at ht
        obtain rfl := Except.ok.inj ht
        exact ⟨rfl, rfl⟩
      · rw [if_neg hadmits] at ht
        cases ht

theorem pipelined_move {m : Move} (ht : t.move m = .ok t') : t'.pipelined = t.pipelined :=
  (target_move ht).1

theorem period_move {m : Move} (ht : t.move m = .ok t') : t'.period = t.period :=
  (target_move ht).2

theorem period_follow (moves : List Move) : (t.follow moves).period = t.period := by
  induction moves generalizing t with
  | nil => rfl
  | cons m moves ih =>
      apply (ih (t := t.attempt m)).trans
      unfold attempt
      split
      next ht => exact period_move ht
      · rfl

/-- A new timeline is within its budget. -/
theorem budgeted_start {period : Float} (h : 0 ≤ period) :
    ({ period, pipelined := true } : Timeline).Budgeted where
  pipelined := rfl
  period_nonneg := h
  floors cycle x hx := by simp at hx
  peaks cycle x hx := by simp at hx
  floor_le := zero_le_zero
  path_le := h
  path_le_peak hpos := absurd hpos (not_lt_of_le zero_le_zero)

end Retime.Timeline
