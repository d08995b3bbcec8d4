import Retime.Proofs.Timeline.Rising

/-! # Peaks

The peak of a cycle is the longest critical path at which the timeline stood in it. A move
adds the path that it ends at, in the cycle that it ends in, and nothing else: an arrival in
another cycle raises the floor of that cycle alone, and is met there when the cycle is
entered.
-/

namespace Retime.Timeline

open Binary64

/-- The current path is above the floor of its cycle and below the peak. -/
structure Tracked (t : Timeline) : Prop extends Nonneg t where
  floor_le : t.floor t.cycle ≤ t.criticalPath
  peak_nonneg : ∀ cycle, 0 ≤ t.peak cycle
  path_le_peak : t.criticalPath ≤ t.peak t.cycle

/-- The peaks of `t'` are those of `t` and the path at which `t'` stands. -/
def Observes (t t' : Timeline) : Prop :=
  ∀ cycle x, x ≤ t'.peak cycle ↔ x ≤ t.peak cycle ∨ t'.cycle = cycle ∧ x ≤ t'.criticalPath

variable {t t' t'' : Timeline} {cycle : Nat} {x y e : Float}

theorem le_latest_iff (hx : 0 ≤ x) (hy : 0 ≤ y) : e ≤ latest x y ↔ e ≤ x ∨ e ≤ y := by
  unfold latest
  by_cases hlt : x < y
  · rw [if_pos hlt]
    exact ⟨.inr, fun h => h.elim (le_trans · (le_of_lt hlt)) id⟩
  · rw [if_neg hlt]
    exact ⟨.inl, fun h => h.elim id (le_trans · (le_of_not_lt hy hx hlt))⟩

theorem latest_le_latest (hx : 0 ≤ x) (he : 0 ≤ e) (h : x ≤ y) : latest x e ≤ latest y e := by
  by_cases hlt : x < e
  · rw [latest, if_pos hlt]
    exact (le_latest_iff (le_trans hx h) he).mpr (.inr (le_refl_of_le he))
  · rw [latest, if_neg hlt]
    exact le_latest h e

theorem peak_recordPeak (cycle : Nat) : t.recordPeak.peak cycle =
    if t.cycle = cycle then latest (t.peak t.cycle) t.criticalPath else t.peak cycle :=
  getD_raise t.peaks t.cycle cycle t.criticalPath

/-! ## What is observed -/

/-- A path is observed when it is recorded. -/
theorem observes_recordPeak (hpeaks : t'.peaks = t.peaks) (hpeak : ∀ cycle, 0 ≤ t.peak cycle)
    (hpath : 0 ≤ t'.criticalPath) : t.Observes t'.recordPeak := by
  have hsame : ∀ cycle, t'.peak cycle = t.peak cycle := fun cycle => by
    unfold peak
    rw [hpeaks]
  intro cycle x
  rw [peak_recordPeak, hsame, hsame]
  show _ ↔ _ ∨ t'.cycle = cycle ∧ x ≤ t'.criticalPath
  by_cases hcycle : t'.cycle = cycle
  · rw [if_pos hcycle, le_latest_iff (hpeak _) hpath, hcycle]
    simp
  · rw [if_neg hcycle]
    simp [hcycle]

/-- A path below the peak of its cycle was observed before. -/
theorem observes_of_le (hpeaks : t'.peaks = t.peaks) (hpath : t'.criticalPath ≤ t'.peak t'.cycle) :
    t.Observes t' := by
  intro cycle x
  have hsame : t'.peak cycle = t.peak cycle := by
    unfold peak
    rw [hpeaks]
  rw [hsame]
  refine ⟨.inl, fun h => h.elim id ?_⟩
  rintro ⟨rfl, hx⟩
  exact hsame ▸ le_trans hx hpath

theorem Tracked.observes_refl (h : t.Tracked) : t.Observes t :=
  observes_of_le rfl h.path_le_peak

/-- A path that rises in its cycle is observed where it ends. -/
theorem Observes.trans (h : t.Observes t') (h' : t'.Observes t'') (hcycle : t''.cycle = t'.cycle)
    (hpath : t'.criticalPath ≤ t''.criticalPath) : t.Observes t'' := by
  intro cycle x
  rw [h', h, hcycle]
  constructor
  · rintro ((hpeak | ⟨hhere, hx⟩) | hlast)
    · exact .inl hpeak
    · exact .inr ⟨hhere, le_trans hx hpath⟩
    · exact .inr hlast
  · exact fun hx => hx.elim (.inl ∘ .inl) .inr

/-- What was observed is tracked. -/
theorem Tracked.observed (h : t.Tracked) (hobserves : t.Observes t') (hnonneg : t'.Nonneg)
    (hfloor : t'.floor t'.cycle ≤ t'.criticalPath) : t'.Tracked where
  toNonneg := hnonneg
  floor_le := hfloor
  peak_nonneg cycle := (hobserves cycle 0).mpr (.inl (h.peak_nonneg cycle))
  path_le_peak := (hobserves t'.cycle _).mpr (.inr ⟨rfl, le_refl_of_le hnonneg.path⟩)

theorem tracked_start (period : Float) (pipelined : Bool) :
    ({ period, pipelined } : Timeline).Tracked where
  toNonneg := nonneg_start period pipelined
  floor_le := by
    show (∅ : Std.TreeMap Nat Float).getD _ 0 ≤ 0
    rw [Std.TreeMap.getD_emptyc]
    exact zero_le_zero
  peak_nonneg _ := by
    show 0 ≤ (∅ : Std.TreeMap Nat Float).getD _ 0
    rw [Std.TreeMap.getD_emptyc]
    exact zero_le_zero
  path_le_peak := by
    show 0 ≤ (∅ : Std.TreeMap Nat Float).getD _ 0
    rw [Std.TreeMap.getD_emptyc]
    exact zero_le_zero

/-! ## Moves -/

theorem Tracked.enter (h : t.Tracked) (cycle : Nat) :
    t.Observes (t.enter cycle) ∧ (t.enter cycle).Tracked := by
  have hobserves : t.Observes (t.enter cycle) := by
    unfold Timeline.enter
    dsimp only
    by_cases hpos : 0 < t.floor cycle
    · rw [if_pos hpos]
      exact observes_recordPeak rfl h.peak_nonneg (h.floor cycle)
    · rw [if_neg hpos]
      -- the cycle starts at zero, which every peak accounts for
      have hzero : t.floor cycle ≤ 0 := le_of_not_lt (h.floor cycle) zero_le_zero hpos
      exact observes_of_le rfl (le_trans hzero (h.peak_nonneg cycle))
  refine ⟨hobserves, h.observed hobserves (h.toNonneg.enter cycle) ?_⟩
  rw [cycle_enter, criticalPath_enter]
  unfold Timeline.floor
  rw [floors_enter]
  exact le_refl_of_le (h.floor cycle)

theorem Tracked.reach (h : t.Tracked) (hx : t.floor t.cycle ≤ x) :
    t.Observes (t.reach x) ∧ (t.reach x).Tracked := by
  have hnonneg : 0 ≤ x := le_trans (h.floor t.cycle) hx
  have hpeaks : ({ t with criticalPath := x } : Timeline).peaks = t.peaks := rfl
  have hobserves : t.Observes (t.reach x) := observes_recordPeak hpeaks h.peak_nonneg hnonneg
  exact ⟨hobserves, h.observed hobserves (h.toNonneg.reach hnonneg) hx⟩

theorem Tracked.advance (h : t.Tracked) (ht : t.advance = .ok t') :
    t.Observes t' ∧ t'.Tracked := by
  unfold Timeline.advance at ht
  cases hnext : laterCycle t.cycle 1 with
  | error e => simp [hnext, Except.map] at ht
  | ok next =>
      simp only [hnext, Except.map, Except.ok.injEq] at ht
      exact ht ▸ h.enter next

theorem Tracked.accrue (h : t.Tracked) {a : Accrual} (ht : t.accrue x = .ok (a, t')) :
    t.Observes t' ∧ t'.Tracked := by
  have hrise : ∀ {s : Timeline}, s.Tracked → t.Admits x → s.floor s.cycle ≤ s.criticalPath + x ∧
      s.criticalPath ≤ s.criticalPath + x := by
    intro s hs hadmits
    have hgrow := le_add_of_nonneg hs.path hadmits.nonneg hadmits.1
    exact ⟨le_trans hs.floor_le hgrow, hgrow⟩
  unfold Timeline.accrue at ht
  split at ht
  · cases ht
  next hadmits =>
    rw [not_not] at hadmits
    split at ht
    · cases hnext : t.roomAfter x t.cycle with
      | error e => simp [hnext, Except.map] at ht
      | ok next =>
          simp only [hnext, Except.map, Except.ok.injEq, Prod.mk.injEq] at ht
          obtain ⟨-, rfl⟩ := ht
          obtain ⟨henters, hentered⟩ := h.enter next
          obtain ⟨hfloor, hgrow⟩ := hrise hentered hadmits
          obtain ⟨hreaches, hreached⟩ := hentered.reach hfloor
          exact ⟨henters.trans hreaches rfl hgrow, hreached⟩
    · cases ht
      exact h.reach (hrise h hadmits).1

theorem Tracked.arrive (h : t.Tracked) (ht : t.arrive cycle x = .ok t') :
    t.Observes t' ∧ t'.Tracked := by
  obtain ⟨hadmits, hsame⟩ := arrive_eq_ok ht
  have hnonneg := h.toNonneg.arrive ht
  have hfloor : t'.floor t'.cycle ≤ t'.criticalPath := by
    rw [cycle_of_arrive ht, floor_of_arrive ht, criticalPath_of_arrive ht]
    by_cases hcycle : cycle = t.cycle
    · rw [if_pos hcycle, if_pos hcycle, hcycle]
      exact latest_le_latest (h.floor _) hadmits.nonneg h.floor_le
    · rw [if_neg hcycle, if_neg hcycle]
      exact h.floor_le
  have hobserves : t.Observes t' := by
    subst hsame
    split
    · exact observes_recordPeak rfl h.peak_nonneg hadmits.nonneg
    · exact observes_of_le rfl h.path_le_peak
  exact ⟨hobserves, h.observed hobserves hnonneg hfloor⟩

theorem Tracked.setCriticalPath (h : t.Tracked) (ht : t.setCriticalPath x = .ok t') :
    t.Observes t' ∧ t'.Tracked := by
  unfold Timeline.setCriticalPath at ht
  by_cases hadmits : t.Admits x
  · rw [if_pos hadmits] at ht
    obtain rfl := Except.ok.inj ht
    exact h.reach (le_latest (le_refl_of_le (h.floor t.cycle)) x)
  · rw [if_neg hadmits] at ht
    cases ht

theorem Tracked.move (h : t.Tracked) {m : Move} (ht : t.move m = .ok t') :
    t.Observes t' ∧ t'.Tracked := by
  cases m with
  | enter cycle =>
      cases ht
      exact h.enter cycle
  | advance => exact h.advance ht
  | jump cycle =>
      cases ht
      unfold jump
      split
      · exact ⟨h.observes_refl, h⟩
      · exact h.enter cycle
  | join cycle =>
      cases ht
      unfold join
      split
      · exact h.enter cycle
      · exact ⟨h.observes_refl, h⟩
  | accrue x =>
      simp only [Timeline.move] at ht
      cases haccrue : t.accrue x with
      | error e => simp [haccrue, Except.map] at ht
      | ok answer =>
          simp only [haccrue, Except.map, Except.ok.injEq] at ht
          exact h.accrue (a := answer.1) (haccrue.trans (by rw [← ht]))
  | arrive cycle x => exact h.arrive ht
  | setCriticalPath x => exact h.setCriticalPath ht

/-- Several arrivals are observed as the latest of those in the current cycle. -/
theorem Tracked.arriveAll (h : t.Tracked) {delays : List Float}
    (ht : t.arriveAll cycle delays = .ok t') : t.Observes t' ∧ t'.Tracked := by
  induction delays generalizing t with
  | nil => exact Except.ok.inj ht ▸ ⟨h.observes_refl, h⟩
  | cons x delays ih =>
      obtain ⟨t₁, hfirst, hrest⟩ := arriveAll_cons_ok ht
      obtain ⟨hobserves, htracked⟩ := h.arrive hfirst
      obtain ⟨hobserves', htracked'⟩ := ih htracked hrest
      have hrises := htracked.toNonneg.rises_arriveAll hrest
      exact ⟨hobserves.trans hobserves' hrises.cycle_eq hrises.path, htracked'⟩

end Retime.Timeline
