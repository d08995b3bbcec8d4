import Retime.Proofs.Binary64.Monotone
import Retime.Proofs.Timeline.Arrivals
import Retime.Proofs.Timeline.Calls

/-! # Rising paths

Whatever the clock period is, and on timelines that are not pipelined as well, the critical
path and the floors are non-negative numbers after every script. So they can be compared with
what they become, and arrivals only let them rise.
-/

namespace Retime.Timeline

open Binary64

/-- The critical path and all floors are non-negative numbers. -/
structure Nonneg (t : Timeline) : Prop where
  path : 0 ≤ t.criticalPath
  floor : ∀ cycle, 0 ≤ t.floor cycle

/-- The floors of `t'` and, in the same cycle, its critical path are not below those of `t`. -/
structure Rises (t t' : Timeline) : Prop where
  cycle_eq : t'.cycle = t.cycle
  path : t.criticalPath ≤ t'.criticalPath
  floor : ∀ cycle, t.floor cycle ≤ t'.floor cycle

variable {t t' t'' : Timeline} {cycle : Nat} {x : Float}

theorem nonneg_start (period : Float) (pipelined : Bool) :
    ({ period, pipelined } : Timeline).Nonneg where
  path := zero_le_zero
  floor _ := by
    show 0 ≤ (∅ : Std.TreeMap Nat Float).getD _ 0
    rw [Std.TreeMap.getD_emptyc]
    exact zero_le_zero

/-! ## Moves -/

theorem Nonneg.of_floors (h : t.Nonneg) (hfloors : t'.floors = t.floors)
    (hpath : 0 ≤ t'.criticalPath) : t'.Nonneg where
  path := hpath
  floor cycle := by
    unfold Timeline.floor
    rw [hfloors]
    exact h.floor cycle

theorem criticalPath_enter (cycle : Nat) : (t.enter cycle).criticalPath = t.floor cycle := by
  unfold enter
  dsimp only
  split <;> rfl

theorem Nonneg.enter (h : t.Nonneg) (cycle : Nat) : (t.enter cycle).Nonneg := by
  apply h.of_floors (floors_enter cycle)
  rw [criticalPath_enter]
  exact h.floor cycle

theorem Nonneg.reach (h : t.Nonneg) (hx : 0 ≤ x) : (t.reach x).Nonneg :=
  h.of_floors rfl hx

theorem Admits.nonneg (h : t.Admits x) : 0 ≤ x :=
  nonneg_of_isFinite h.1 h.2.1

theorem Nonneg.advance (h : t.Nonneg) (ht : t.advance = .ok t') : t'.Nonneg := by
  unfold Timeline.advance at ht
  cases hnext : laterCycle t.cycle 1 with
  | error e => simp [hnext, Except.map] at ht
  | ok next =>
      simp only [hnext, Except.map, Except.ok.injEq] at ht
      exact ht ▸ h.enter next

theorem Nonneg.accrue (h : t.Nonneg) {a : Accrual} (ht : t.accrue x = .ok (a, t')) :
    t'.Nonneg := by
  unfold Timeline.accrue at ht
  split at ht
  · cases ht
  next hadmits =>
    have hx := (not_not.mp hadmits).nonneg
    split at ht
    · cases hnext : t.roomAfter x t.cycle with
      | error e => simp [hnext, Except.map] at ht
      | ok next =>
          simp only [hnext, Except.map, Except.ok.injEq, Prod.mk.injEq] at ht
          obtain ⟨-, rfl⟩ := ht
          have henter := h.enter next
          exact henter.reach (Binary64.add_nonneg henter.path hx)
    · cases ht
      exact h.reach (Binary64.add_nonneg h.path hx)

theorem nonneg_latest {y : Float} (hx : 0 ≤ x) (hy : 0 ≤ y) : 0 ≤ latest x y := by
  unfold latest
  split
  · exact hy
  · exact hx

theorem Nonneg.arrive (h : t.Nonneg) (ht : t.arrive cycle x = .ok t') : t'.Nonneg := by
  have hx := (arrive_eq_ok ht).1.nonneg
  constructor
  · rw [criticalPath_of_arrive ht]
    split
    · exact nonneg_latest h.path hx
    · exact h.path
  · intro cycle'
    rw [floor_of_arrive ht]
    split
    · exact nonneg_latest (h.floor cycle) hx
    · exact h.floor cycle'

theorem Nonneg.setCriticalPath (h : t.Nonneg) (ht : t.setCriticalPath x = .ok t') :
    t'.Nonneg := by
  unfold Timeline.setCriticalPath at ht
  by_cases hadmits : t.Admits x
  · rw [if_pos hadmits] at ht
    obtain rfl := Except.ok.inj ht
    exact h.reach (nonneg_latest (h.floor t.cycle) hadmits.nonneg)
  · rw [if_neg hadmits] at ht
    cases ht

/-- Every move keeps the signs. -/
theorem Nonneg.move (h : t.Nonneg) {m : Move} (ht : t.move m = .ok t') : t'.Nonneg := by
  cases m with
  | enter cycle =>
      cases ht
      exact h.enter cycle
  | advance => exact h.advance ht
  | jump cycle =>
      cases ht
      unfold jump
      split
      · exact h
      · exact h.enter cycle
  | join cycle =>
      cases ht
      unfold join
      split
      · exact h.enter cycle
      · exact h
  | accrue x =>
      simp only [Timeline.move] at ht
      cases haccrue : t.accrue x with
      | error e => simp [haccrue, Except.map] at ht
      | ok answer =>
          simp only [haccrue, Except.map, Except.ok.injEq] at ht
          exact h.accrue (a := answer.1) (haccrue.trans (by rw [← ht]))
  | arrive cycle x => exact h.arrive ht
  | setCriticalPath x => exact h.setCriticalPath ht

/-! ## Arrivals -/

theorem Nonneg.rises_refl (h : t.Nonneg) : t.Rises t where
  cycle_eq := rfl
  path := le_refl_of_le h.path
  floor cycle := le_refl_of_le (h.floor cycle)

theorem Rises.trans (h : t.Rises t') (h' : t'.Rises t'') : t.Rises t'' where
  cycle_eq := h'.cycle_eq.trans h.cycle_eq
  path := le_trans h.path h'.path
  floor cycle := le_trans (h.floor cycle) (h'.floor cycle)

theorem Nonneg.rises_arrive (h : t.Nonneg) (ht : t.arrive cycle x = .ok t') : t.Rises t' where
  cycle_eq := cycle_of_arrive ht
  path := by
    rw [criticalPath_of_arrive ht]
    split
    · exact le_latest (le_refl_of_le h.path) x
    · exact le_refl_of_le h.path
  floor cycle' := le_floor_of_move (m := .arrive cycle x) ht (le_refl_of_le (h.floor cycle'))

theorem Nonneg.rises_arriveAll (h : t.Nonneg) {delays : List Float}
    (ht : t.arriveAll cycle delays = .ok t') : t.Rises t' := by
  induction delays generalizing t with
  | nil => exact Except.ok.inj ht ▸ h.rises_refl
  | cons x delays ih =>
      obtain ⟨t₁, hfirst, hrest⟩ := arriveAll_cons_ok ht
      exact (h.rises_arrive hfirst).trans (ih (h.arrive hfirst) hrest)

end Retime.Timeline

namespace Retime.Operator

theorem nonneg_after (handle : Handle) (name : String) (period : Float) (pipelined : Bool)
    (script : Script) : ((blank handle name period pipelined).after script).timeline.Nonneg :=
  timeline_after (fun _ _ _ h ht => h.move ht) (Timeline.nonneg_start period pipelined) script

end Retime.Operator
