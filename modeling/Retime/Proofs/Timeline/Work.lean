import Retime.Proofs.Binary64.Monotone
import Retime.Proofs.Timeline.Arrivals

/-! # Work on a timeline

A list of work is accrued piece by piece. On a pipelined timeline all of it finds room if and
only if each piece fits the period by itself, and each piece opens one cycle at most; elsewhere
it stays in its cycle, and the critical path is the sum of all pieces.
-/

namespace Retime.Timeline

open Binary64

/-- Several pieces of work, one after another. -/
def accrueAll (t : Timeline) (work : List Float) : Except Fault Timeline :=
  work.foldlM (fun t x => t.move (.accrue x)) t

variable {t t' : Timeline} {x : Float} {cycle first last : Nat} {work rest : List Float}

theorem accrueAll_append : t.accrueAll (work ++ rest) =
    (t.accrueAll work).bind (·.accrueAll rest) :=
  List.foldlM_append

theorem accrueAll_cons : t.accrueAll (x :: rest) =
    (t.move (.accrue x)).bind (·.accrueAll rest) :=
  List.foldlM_cons

/-- Work that fails makes all work that starts with it fail. -/
theorem accrueAll_error {e : Fault} (h : t.accrueAll work = .error e) (rest : List Float) :
    t.accrueAll (work ++ rest) = .error e := by
  rw [accrueAll_append, h]
  rfl

theorem accrueAll_snoc (h : t.accrueAll work = .ok t') (x : Float) :
    t.accrueAll (work ++ [x]) = t'.move (.accrue x) := by
  rw [accrueAll_append, h]
  show t'.accrueAll [x] = _
  rw [accrueAll_cons]
  cases t'.move (.accrue x) <;> rfl

/-! ## Cycles -/

theorem lt_of_roomAfter {next : Nat} (h : t.roomAfter x cycle = .ok next) : cycle < next := by
  fun_induction roomAfter t x cycle with
  | case1 cycle hcycle hroom =>
      cases h
      exact Nat.lt_succ_self cycle
  | case2 cycle hcycle hroom ih => exact Nat.lt_of_succ_lt (ih h)
  | case3 cycle hcycle => cases h

/-- Work never leads to an earlier cycle. -/
theorem cycle_le_of_accrue (ht : t.move (.accrue x) = .ok t') : t.cycle ≤ t'.cycle := by
  simp only [move, accrue] at ht
  split at ht
  · cases ht
  · split at ht
    · cases hnext : t.roomAfter x t.cycle with
      | error e => simp [hnext, Except.map] at ht
      | ok next =>
          simp only [hnext, Except.map, Except.ok.injEq] at ht
          subst ht
          show t.cycle ≤ (t.enter next).cycle
          rw [cycle_enter]
          exact Nat.le_of_lt (lt_of_roomAfter hnext)
    · simp only [Except.map, Except.ok.injEq] at ht
      exact ht ▸ Nat.le_refl _

/-! ## The budget -/

theorem period_accrueAll (ht : t.accrueAll work = .ok t') : t'.period = t.period := by
  induction work generalizing t with
  | nil =>
      cases ht
      rfl
  | cons x work ih =>
      rw [accrueAll_cons] at ht
      cases hmove : t.move (.accrue x) with
      | error e => simp [hmove, Except.bind] at ht
      | ok t₁ =>
          rw [hmove] at ht
          exact (ih ht).trans (period_move hmove)

/-- Work keeps to the budget where there is one. -/
theorem budgeted_accrueAll (h : t.pipelined = true → t.Budgeted) (ht : t.accrueAll work = .ok t') :
    t'.pipelined = true → t'.Budgeted := by
  induction work generalizing t with
  | nil =>
      cases ht
      exact h
  | cons x work ih =>
      rw [accrueAll_cons] at ht
      cases hmove : t.move (.accrue x) with
      | error e => simp [hmove, Except.bind] at ht
      | ok t₁ =>
          rw [hmove] at ht
          refine ih (fun hpipelined => ?_) ht
          exact budgeted_move (h (pipelined_move hmove ▸ hpipelined)) hmove

/-! ## Pipelined timelines -/

/-- Nothing arrives after the current cycle, which lies between `first` and `last`. -/
structure Paced (first last : Nat) (t : Timeline) : Prop extends Budgeted t where
  period_finite : t.period.isFinite
  first_le : first ≤ t.cycle
  le_last : t.cycle ≤ last
  ahead : ∀ cycle, t.cycle < cycle → t.floors[cycle]? = none

/-- A piece of work is admitted if it fits the period. -/
theorem admits_iff (hpipelined : t.pipelined = true) (hfinite : t.period.isFinite)
    (hperiod : 0 ≤ t.period) (hx : 0 ≤ x) : t.Admits x ↔ x ≤ t.period := by
  constructor
  · rintro ⟨-, -, hfits⟩
    exact le_of_not_lt hx hperiod fun hlt => hfits ⟨hpipelined, hlt⟩
  · intro hle
    exact ⟨isFinite_of_le hx hle hfinite, not_lt_of_le hx, fun h => not_lt_of_le hle h.2⟩

theorem accrue_of_long (h : ¬ t.Admits x) :
    t.move (.accrue x) = .error (.unreachableTiming x t.period) := by
  simp [move, accrue, h, Except.map]

/-- The next cycle has room for whatever fits the period. -/
theorem Paced.roomAfter (h : t.Paced first last) (hx : 0 ≤ x) (hfits : x ≤ t.period)
    (hlast : last < maxCycle) : t.roomAfter x t.cycle = .ok (t.cycle + 1) := by
  have hfloor : t.floor (t.cycle + 1) = 0 := by
    simp [floor, Std.TreeMap.getD_eq_getD_getElem?, h.ahead (t.cycle + 1) (Nat.lt_succ_self _)]
  have hcycle : t.cycle < maxCycle := Nat.lt_of_le_of_lt h.le_last hlast
  rw [Timeline.roomAfter, if_pos hcycle, hfloor, if_pos]
  exact (zero_add_le hx).mpr hfits

theorem Paced.weaken (h : t.Paced first last) {later : Nat} (hle : last ≤ later) :
    t.Paced first later :=
  { h with le_last := h.le_last.trans hle }

/-- Work that fits the rest of the period stays in its cycle. -/
theorem Paced.accrue_fitted (h : t.Paced first last) (hadmits : t.Admits x)
    (hroom : ¬ t.period < t.criticalPath + x) :
    ∃ t', t.move (.accrue x) = .ok t' ∧ t'.Paced first last ∧ t'.period = t.period := by
  have hmove : t.move (.accrue x) = .ok (t.reach (t.criticalPath + x)) := by
    simp [move, accrue, hadmits, hroom, Except.map]
  refine ⟨_, hmove, ⟨budgeted_move h.toBudgeted hmove, h.period_finite, h.first_le, h.le_last,
    h.ahead⟩, rfl⟩

/-- Work that does not fit it goes to the next cycle. -/
theorem Paced.accrue_cut (h : t.Paced first last) (hx : 0 ≤ x) (hadmits : t.Admits x)
    (hroom : t.period < t.criticalPath + x) (hlast : last < maxCycle) :
    ∃ t', t.move (.accrue x) = .ok t' ∧ t'.Paced first (last + 1) ∧ t'.period = t.period := by
  have hfits := (admits_iff h.pipelined h.period_finite h.period_nonneg hx).mp hadmits
  have hmove : t.move (.accrue x) =
      .ok ((t.enter (t.cycle + 1)).reach ((t.enter (t.cycle + 1)).criticalPath + x)) := by
    simp [move, accrue, hadmits, hroom, h.pipelined, h.roomAfter hx hfits hlast, Except.map]
  have hperiod := period_move hmove
  have hcycle : (t.enter (t.cycle + 1)).cycle = t.cycle + 1 := cycle_enter _
  have hfloors : (t.enter (t.cycle + 1)).floors = t.floors := floors_enter _
  refine ⟨_, hmove, ⟨budgeted_move h.toBudgeted hmove, ?_, ?_, ?_, fun cycle hlt => ?_⟩, hperiod⟩
  · rw [hperiod]
    exact h.period_finite
  · show first ≤ (t.enter (t.cycle + 1)).cycle
    rw [hcycle]
    exact Nat.le_succ_of_le h.first_le
  · show (t.enter (t.cycle + 1)).cycle ≤ last + 1
    rw [hcycle]
    exact Nat.succ_le_succ h.le_last
  · change (t.enter (t.cycle + 1)).cycle < cycle at hlt
    show (t.enter (t.cycle + 1)).floors[cycle]? = none
    rw [hcycle] at hlt
    rw [hfloors]
    exact h.ahead cycle (Nat.lt_of_succ_lt hlt)

theorem Paced.accrue (h : t.Paced first last) (hx : 0 ≤ x) (hfits : x ≤ t.period)
    (hlast : last < maxCycle) :
    ∃ t', t.move (.accrue x) = .ok t' ∧ t'.Paced first (last + 1) ∧ t'.period = t.period := by
  have hadmits := (admits_iff h.pipelined h.period_finite h.period_nonneg hx).mpr hfits
  by_cases hroom : t.period < t.criticalPath + x
  · exact h.accrue_cut hx hadmits hroom hlast
  · obtain ⟨t', hmove, hpaced, hperiod⟩ := h.accrue_fitted hadmits hroom
    exact ⟨t', hmove, hpaced.weaken (Nat.le_succ last), hperiod⟩

/-- All work is done if and only if each piece fits the period; otherwise the first piece that
does not fit is the reason. -/
theorem Paced.accrueAll (h : t.Paced first last) (hwork : ∀ x ∈ work, 0 ≤ x)
    (hlast : last + work.length ≤ maxCycle) :
    ((∀ x ∈ work, x ≤ t.period) →
      ∃ t', t.accrueAll work = .ok t' ∧ t'.Paced first (last + work.length)) ∧
    ((∃ x ∈ work, ¬ x ≤ t.period) →
      ∃ delay, t.accrueAll work = .error (.unreachableTiming delay t.period)) := by
  induction work generalizing t last with
  | nil => exact ⟨fun _ => ⟨t, rfl, h⟩, by simp⟩
  | cons x work ih =>
      rw [List.length_cons] at hlast ⊢
      have hx := hwork x List.mem_cons_self
      have hrest : ∀ y ∈ work, 0 ≤ y := fun y hy => hwork y (List.mem_cons_of_mem x hy)
      by_cases hfits : x ≤ t.period
      · obtain ⟨t', hmove, hpaced, hperiod⟩ := h.accrue hx hfits (by omega)
        obtain ⟨hdone, hfails⟩ := ih hpaced hrest (by omega)
        have hlength : last + (work.length + 1) = last + 1 + work.length := by omega
        rw [accrueAll_cons, hmove, ← hperiod, hlength]
        refine ⟨fun hall => hdone fun y hy => hall y (List.mem_cons_of_mem x hy), ?_⟩
        rintro ⟨y, hy, hlong⟩
        rcases List.mem_cons.mp hy with rfl | hy
        · rw [hperiod] at hlong
          exact absurd hfits hlong
        · exact hfails ⟨y, hy, hlong⟩
      · refine ⟨fun hall => absurd (hall x List.mem_cons_self) hfits, fun _ => ⟨x, ?_⟩⟩
        have hadmits := mt (admits_iff h.pipelined h.period_finite h.period_nonneg hx).mp hfits
        rw [accrueAll_cons, accrue_of_long hadmits]
        rfl

/-- On a new timeline the first piece of work opens no cycle. -/
theorem accrueAll_start {period : Float} (hperiod : 0 ≤ period) (hfinite : period.isFinite)
    (hwork : ∀ x ∈ work, 0 ≤ x) (hlast : work.length - 1 ≤ maxCycle) :
    let start : Timeline := { period, pipelined := true }
    ((∀ x ∈ work, x ≤ period) →
      ∃ t', start.accrueAll work = .ok t' ∧ t'.Paced 0 (work.length - 1)) ∧
    ((∃ x ∈ work, ¬ x ≤ period) →
      ∃ delay, start.accrueAll work = .error (.unreachableTiming delay period)) := by
  intro start
  have hstart : start.Paced 0 0 :=
    ⟨budgeted_start hperiod, hfinite, Nat.le_refl _, Nat.le_refl _, fun cycle _ => by simp [start]⟩
  cases work with
  | nil => exact ⟨fun _ => ⟨start, rfl, hstart⟩, by simp⟩
  | cons x work =>
      have hx := hwork x List.mem_cons_self
      have hrest : ∀ y ∈ work, 0 ≤ y := fun y hy => hwork y (List.mem_cons_of_mem x hy)
      rw [List.length_cons, Nat.add_sub_cancel] at hlast ⊢
      by_cases hfits : x ≤ period
      · have hadmits := (admits_iff hstart.pipelined hfinite hperiod hx).mpr hfits
        have hroom : ¬ period < 0 + x := not_lt_of_le ((zero_add_le hx).mpr hfits)
        obtain ⟨t', hmove, hpaced, hsame⟩ := hstart.accrue_fitted hadmits hroom
        obtain ⟨hdone, hfails⟩ := hpaced.accrueAll hrest (by omega)
        rw [hsame, Nat.zero_add] at hdone
        rw [hsame] at hfails
        rw [accrueAll_cons, hmove]
        refine ⟨fun hall => hdone fun y hy => hall y (List.mem_cons_of_mem x hy), ?_⟩
        rintro ⟨y, hy, hlong⟩
        rcases List.mem_cons.mp hy with rfl | hy
        · exact absurd hfits hlong
        · exact hfails ⟨y, hy, hlong⟩
      · refine ⟨fun hall => absurd (hall x List.mem_cons_self) hfits, fun _ => ⟨x, ?_⟩⟩
        have hadmits := mt (admits_iff hstart.pipelined hfinite hperiod hx).mp hfits
        rw [accrueAll_cons, accrue_of_long hadmits]
        rfl

/-! ## Arrivals before the work -/

/-- The timeline is in `cycle`, and nothing arrives after the cycle `horizon`. -/
structure Clear (period : Float) (pipelined : Bool) (cycle horizon : Nat) (t : Timeline) : Prop where
  period_eq : t.period = period
  pipelined_eq : t.pipelined = pipelined
  budgeted : t.pipelined = true → t.Budgeted
  cycle_eq : t.cycle = cycle
  ahead : ∀ c, horizon < c → t.floors[c]? = none

section Clear

variable {period : Float} {pipelined : Bool} {horizon : Nat}

@[simp] theorem pipelined_join (cycle : Nat) : (t.join cycle).pipelined = t.pipelined := by
  unfold Timeline.join
  split
  · exact pipelined_enter cycle
  · rfl

theorem clear_start (hperiod : pipelined = true → 0 ≤ period) (horizon : Nat) :
    Clear period pipelined 0 horizon { period, pipelined } where
  period_eq := rfl
  pipelined_eq := rfl
  budgeted hpipelined := by
    obtain rfl : pipelined = true := hpipelined
    exact budgeted_start (hperiod rfl)
  cycle_eq := rfl
  ahead c _ := by simp

/-- What arrives at the horizon. -/
theorem Clear.arrive (h : t.Clear period pipelined cycle horizon) (hx : t.Admits x) :
    ∃ t', t.arrive horizon x = .ok t' ∧ t'.Clear period pipelined cycle horizon := by
  obtain ⟨t', ht'⟩ : ∃ t', t.arrive horizon x = .ok t' := by
    unfold Timeline.arrive
    rw [if_pos hx]
    exact ⟨_, rfl⟩
  have hpipelined : t'.pipelined = t.pipelined := by
    obtain ⟨-, rfl⟩ := arrive_eq_ok ht'
    split <;> rfl
  refine ⟨t', ht', (period_move (m := .arrive horizon x) ht').trans h.period_eq,
    hpipelined.trans h.pipelined_eq, fun hp => ?_, (cycle_of_arrive ht').trans h.cycle_eq, fun c hc => ?_⟩
  · exact budgeted_arrive (h.budgeted (hpipelined ▸ hp)) ht'
  · have hfloors : t'.floors[c]? = (raise t.floors horizon x)[c]? := by
      obtain ⟨-, rfl⟩ := arrive_eq_ok ht'
      split <;> rfl
    rw [hfloors, getElem?_raise, if_neg (Nat.ne_of_lt hc)]
    exact h.ahead c hc

/-- Going on to the horizon. -/
theorem Clear.join (h : t.Clear period pipelined cycle horizon) (hle : cycle ≤ horizon) :
    (t.join horizon).Clear period pipelined horizon horizon where
  period_eq := (period_move (m := .join horizon) rfl).trans h.period_eq
  pipelined_eq := (pipelined_join horizon).trans h.pipelined_eq
  budgeted hp := budgeted_join (h.budgeted (pipelined_join (t := t) horizon ▸ hp)) horizon
  cycle_eq := by
    have hcycle := h.cycle_eq
    unfold Timeline.join
    split
    · exact cycle_enter horizon
    next hlate => omega
  ahead c hc := by
    have hjoin : t.move (.join horizon) = .ok (t.join horizon) := rfl
    rcases floors_of_move hjoin with hsame | ⟨_, _, hm⟩
    · rw [hsame]
      exact h.ahead c hc
    · cases hm

theorem Clear.paced (h : t.Clear period true horizon horizon) (hfinite : period.isFinite) :
    t.Paced horizon horizon where
  toBudgeted := h.budgeted h.pipelined_eq
  period_finite := h.period_eq.symm ▸ hfinite
  first_le := Nat.le_of_eq h.cycle_eq.symm
  le_last := Nat.le_of_eq h.cycle_eq
  ahead c hc := h.ahead c (h.cycle_eq ▸ hc)

end Clear

/-! ## Other timelines -/

/-- Where nothing moves on its own account, work adds up in its cycle. -/
theorem accrueAll_flat (hflat : t.pipelined = false)
    (hwork : ∀ x ∈ work, 0 ≤ x ∧ x.isFinite) :
    ∃ t', t.accrueAll work = .ok t' ∧ t'.pipelined = false ∧ t'.cycle = t.cycle ∧
      t'.criticalPath = work.foldl (· + ·) t.criticalPath := by
  induction work generalizing t with
  | nil => exact ⟨t, rfl, hflat, rfl, rfl⟩
  | cons x work ih =>
      obtain ⟨hx, hfinite⟩ := hwork x List.mem_cons_self
      have hadmits : t.Admits x :=
        ⟨hfinite, not_lt_of_le hx, fun h => by rw [hflat] at h; cases h.1⟩
      have hmove : t.move (.accrue x) = .ok (t.reach (t.criticalPath + x)) := by
        simp [move, accrue, hadmits, hflat, Except.map]
      rw [accrueAll_cons, hmove]
      exact ih hflat fun y hy => hwork y (List.mem_cons_of_mem x hy)

/-- If the sums of its first pieces are finite, so are the pieces. -/
theorem finite_of_sums (hx : 0 ≤ x) (hwork : ∀ y ∈ work, 0 ≤ y)
    (hsums : ∀ n, ((work.take n).foldl (· + ·) x).isFinite) : ∀ y ∈ work, y.isFinite := by
  induction work generalizing x with
  | nil => simp
  | cons y work ih =>
      obtain ⟨hy, hrest⟩ := List.forall_mem_cons.mp hwork
      have hfirst : (x + y).isFinite := by simpa using hsums 1
      refine List.forall_mem_cons.mpr ⟨isFinite_of_isFinite_add hx hy hfirst, ?_⟩
      exact ih (add_nonneg hx hy) hrest fun n => by simpa using hsums (n + 1)

theorem foldl_nonneg (hx : 0 ≤ x) (hwork : ∀ y ∈ work, 0 ≤ y) : 0 ≤ work.foldl (· + ·) x := by
  induction work generalizing x with
  | nil => exact hx
  | cons y work ih =>
      obtain ⟨hy, hrest⟩ := List.forall_mem_cons.mp hwork
      exact ih (add_nonneg hx hy) hrest

end Retime.Timeline
