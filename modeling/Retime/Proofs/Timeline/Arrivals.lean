import Retime.Proofs.Timeline.Budget

/-! # Arrivals

Floors only rise. A value that reaches a cycle raises the floor of that cycle to its own
arrival, unless an earlier value arrives later, and so does the critical path if the cycle
is the current one. Arrivals do not add up: of several values, and of the work before them,
the latest one counts.
-/

namespace Retime.Timeline

open Binary64

variable {t t' : Timeline} {cycle : Nat} {x e : Float}

/-- The later of two times; at equal ones the first. -/
def latest (x y : Float) : Float :=
  if x < y then y else x

/-- Values reach one cycle, one after another. -/
def arriveAll (t : Timeline) (cycle : Nat) (delays : List Float) : Except Fault Timeline :=
  delays.foldlM (·.arrive cycle ·) t

/-! ## Floors only rise -/

@[simp] theorem floors_enter (cycle : Nat) : (t.enter cycle).floors = t.floors := by
  unfold enter
  dsimp only
  split <;> rfl

theorem le_latest (h : e ≤ x) (y : Float) : e ≤ latest x y := by
  unfold latest
  split
  next hlt => exact le_trans h (le_of_lt hlt)
  · exact h

theorem floor_raise (cycle cycle' : Nat) (x : Float) :
    { t with floors := raise t.floors cycle x }.floor cycle' =
      if cycle = cycle' then latest (t.floor cycle) x else t.floor cycle' :=
  getD_raise t.floors cycle cycle' x

/-- What a successful arrival does. -/
theorem arrive_eq_ok (ht : t.arrive cycle x = .ok t') : t.Admits x ∧ t' =
    if cycle = t.cycle ∧ t.criticalPath < x then
      { t with floors := raise t.floors cycle x }.reach x
    else { t with floors := raise t.floors cycle x } := by
  unfold arrive at ht
  by_cases hadmits : t.Admits x
  · rw [if_pos hadmits] at ht
    exact ⟨hadmits, (Except.ok.inj ht).symm⟩
  · rw [if_neg hadmits] at ht
    cases ht

theorem floor_of_arrive (ht : t.arrive cycle x = .ok t') (cycle' : Nat) :
    t'.floor cycle' = if cycle = cycle' then latest (t.floor cycle) x else t.floor cycle' := by
  rw [← floor_raise]
  obtain ⟨-, rfl⟩ := arrive_eq_ok ht
  split <;> rfl

/-- No move but an arrival changes a floor. -/
theorem floors_of_move {m : Move} (ht : t.move m = .ok t') :
    t'.floors = t.floors ∨ ∃ cycle x, m = .arrive cycle x := by
  cases m with
  | arrive cycle x => exact .inr ⟨cycle, x, rfl⟩
  | enter cycle =>
      cases ht
      exact .inl (floors_enter cycle)
  | advance =>
      simp only [move, advance] at ht
      cases hnext : laterCycle t.cycle 1 with
      | error e => simp [hnext, Except.map] at ht
      | ok next =>
          simp only [hnext, Except.map, Except.ok.injEq] at ht
          exact .inl (ht ▸ floors_enter next)
  | jump cycle =>
      cases ht
      unfold jump
      split
      · exact .inl rfl
      · exact .inl (floors_enter cycle)
  | join cycle =>
      cases ht
      unfold join
      split
      · exact .inl (floors_enter cycle)
      · exact .inl rfl
  | accrue x =>
      simp only [move, accrue] at ht
      split at ht
      · cases ht
      · split at ht
        · cases hnext : t.roomAfter x t.cycle with
          | error e => simp [hnext, Except.map] at ht
          | ok next =>
              simp only [hnext, Except.map, Except.ok.injEq] at ht
              exact .inl (ht ▸ floors_enter next)
        · simp only [Except.map, Except.ok.injEq] at ht
          exact .inl (ht ▸ rfl)
  | setCriticalPath x =>
      simp only [move, setCriticalPath] at ht
      by_cases hadmits : t.Admits x
      · rw [if_pos hadmits] at ht
        obtain rfl := Except.ok.inj ht
        exact .inl rfl
      · rw [if_neg hadmits] at ht
        cases ht

/-- No move lowers a floor. -/
theorem le_floor_of_move {m : Move} (ht : t.move m = .ok t') (h : e ≤ t.floor cycle) :
    e ≤ t'.floor cycle := by
  rcases floors_of_move ht with hsame | ⟨cycle', x, rfl⟩
  · rw [floor, hsame]
    exact h
  · rw [floor_of_arrive ht]
    split
    next hcycle => exact le_latest (hcycle ▸ h) x
    · exact h

/-! ## One arrival -/

theorem cycle_of_arrive (ht : t.arrive cycle x = .ok t') : t'.cycle = t.cycle := by
  obtain ⟨-, rfl⟩ := arrive_eq_ok ht
  split <;> rfl

theorem criticalPath_of_arrive (ht : t.arrive cycle x = .ok t') : t'.criticalPath =
    if cycle = t.cycle then latest t.criticalPath x else t.criticalPath := by
  obtain ⟨-, rfl⟩ := arrive_eq_ok ht
  unfold latest
  by_cases hcycle : cycle = t.cycle
  · rw [if_pos hcycle]
    by_cases hlt : t.criticalPath < x
    · rw [if_pos ⟨hcycle, hlt⟩, if_pos hlt]
      rfl
    · rw [if_neg fun h => hlt h.2, if_neg hlt]
  · rw [if_neg fun h => hcycle h.1, if_neg hcycle]

/-- A delay within a finite period is never refused. -/
theorem arrive_of_inPeriod (hperiod : t.period.isFinite) (hx : t.InPeriod x) (cycle : Nat) :
    ∃ t', t.arrive cycle x = .ok t' := by
  have hadmits : t.Admits x :=
    ⟨isFinite_of_le hx.1 hx.2 hperiod, not_lt_of_le hx.1, fun hlong => not_lt_of_le hx.2 hlong.2⟩
  unfold arrive
  rw [if_pos hadmits]
  exact ⟨_, rfl⟩

/-- What arrived is below the floor from then on. -/
theorem le_floor_of_arrive (ht : t.arrive cycle x = .ok t') (hfloor : 0 ≤ t.floor cycle) :
    x ≤ t'.floor cycle := by
  obtain ⟨⟨hfin, hneg, -⟩, -⟩ := arrive_eq_ok ht
  have hx := nonneg_of_isFinite hfin hneg
  rw [floor_of_arrive ht, if_pos rfl, latest]
  split
  · exact le_refl_of_le hx
  next hlt => exact le_of_not_lt hx hfloor hlt

/-! ## Several arrivals -/

@[simp] theorem arriveAll_nil (t : Timeline) (cycle : Nat) : t.arriveAll cycle [] = .ok t :=
  rfl

theorem arriveAll_cons (t : Timeline) (cycle : Nat) (x : Float) (delays : List Float) :
    t.arriveAll cycle (x :: delays) = (t.arrive cycle x).bind (·.arriveAll cycle delays) :=
  List.foldlM_cons

theorem arriveAll_singleton (t : Timeline) (cycle : Nat) (x : Float) :
    t.arriveAll cycle [x] = t.arrive cycle x := by
  rw [arriveAll_cons]
  cases t.arrive cycle x <;> rfl

theorem arriveAll_append (t : Timeline) (cycle : Nat) (delays delays' : List Float) :
    t.arriveAll cycle (delays ++ delays') =
      (t.arriveAll cycle delays).bind (·.arriveAll cycle delays') :=
  List.foldlM_append

theorem arriveAll_cons_ok {delays : List Float}
    (ht : t.arriveAll cycle (x :: delays) = .ok t') :
    ∃ t₁, t.arrive cycle x = .ok t₁ ∧ t₁.arriveAll cycle delays = .ok t' := by
  rw [arriveAll_cons] at ht
  cases hfirst : t.arrive cycle x with
  | error e =>
      rw [hfirst] at ht
      cases ht
  | ok t₁ =>
      rw [hfirst] at ht
      exact ⟨t₁, rfl, ht⟩

/-- What every move keeps, several arrivals keep. -/
theorem keeps_arriveAll {P : Timeline → Prop} (hmove : ∀ t m t', P t → t.move m = .ok t' → P t')
    {delays : List Float} (h : P t) (ht : t.arriveAll cycle delays = .ok t') : P t' := by
  induction delays generalizing t with
  | nil => exact Except.ok.inj ht ▸ h
  | cons x delays ih =>
      obtain ⟨t₁, hfirst, hrest⟩ := arriveAll_cons_ok ht
      exact ih (hmove t (.arrive cycle x) t₁ h hfirst) hrest

theorem cycle_of_arriveAll {delays : List Float} (ht : t.arriveAll cycle delays = .ok t') :
    t'.cycle = t.cycle := by
  induction delays generalizing t with
  | nil => exact Except.ok.inj ht ▸ rfl
  | cons x delays ih =>
      obtain ⟨t₁, hfirst, hrest⟩ := arriveAll_cons_ok ht
      exact (ih hrest).trans (cycle_of_arrive hfirst)

/-- Each of the arrivals is below the floor in the end. -/
theorem le_floor_of_arriveAll {delays : List Float} (h : 0 ≤ t.floor cycle)
    (ht : t.arriveAll cycle delays = .ok t') : ∀ x ∈ delays, x ≤ t'.floor cycle := by
  induction delays generalizing t with
  | nil => exact fun x hx => absurd hx List.not_mem_nil
  | cons y delays ih =>
      obtain ⟨t₁, hfirst, hrest⟩ := arriveAll_cons_ok ht
      rw [List.forall_mem_cons]
      refine ⟨?_, ih (le_floor_of_move (m := .arrive cycle y) hfirst h) hrest⟩
      refine keeps_arriveAll (P := fun t => y ≤ t.floor cycle)
        (fun _ _ _ hy hm => le_floor_of_move hm hy) ?_ hrest
      exact le_floor_of_arrive hfirst h

/-- The floor after several arrivals is the latest of them and of the floor before. -/
theorem floor_of_arriveAll {delays : List Float} (ht : t.arriveAll cycle delays = .ok t') :
    t'.floor cycle = delays.foldl latest (t.floor cycle) := by
  induction delays generalizing t with
  | nil => exact Except.ok.inj ht ▸ rfl
  | cons x delays ih =>
      obtain ⟨t₁, hfirst, hrest⟩ := arriveAll_cons_ok ht
      rw [ih hrest, floor_of_arrive hfirst, if_pos rfl, List.foldl_cons]

/-- The critical path of the current cycle is the latest of the arrivals in that cycle and of
the path before. -/
theorem criticalPath_of_arriveAll {delays : List Float} (hcycle : t.cycle = cycle)
    (ht : t.arriveAll cycle delays = .ok t') :
    t'.criticalPath = delays.foldl latest t.criticalPath := by
  induction delays generalizing t with
  | nil => exact Except.ok.inj ht ▸ rfl
  | cons x delays ih =>
      obtain ⟨t₁, hfirst, hrest⟩ := arriveAll_cons_ok ht
      rw [ih ((cycle_of_arrive hfirst).trans hcycle) hrest, criticalPath_of_arrive hfirst,
        if_pos hcycle.symm, List.foldl_cons]

end Retime.Timeline
