import Retime.Proofs.Kind.Feasible

/-! # Which kinds can be scheduled

A built-in kind that is generated first of all gives an operator exactly if the device fits it.
The only obstacle is time: a pipelined device refuses what takes longer than its period, and the
depth of the operator is bounded by the pieces of its work.
-/

namespace Retime

open Retime.Action Retime.Operator Binary64 Kind Family

/-! ## Families that only call -/

/-- The families but that of the sums of products. -/
theorem Family.does {f : Family} {sizes : Sizes} (hsizes : ∀ n ∈ f.parameters sizes, 1 ≤ n)
    (hf : f ≠ .sumOfProducts) (device : Device) :
    ∃ ports width, ((f.kind sizes).design device).Does ports width (f.work device sizes) := by
  cases f with
  | adder => exact ⟨_, _, does_adder sizes.width device⟩
  | multiAdder =>
      exact ⟨_, _, does_multiAdder sizes.width (hsizes sizes.count (by simp [parameters])) device⟩
  | multiplier =>
      have hparts := parts_pos (hsizes sizes.width (by simp [parameters])) device
      exact ⟨_, _, does_multiplier hparts⟩
  | sumOfProducts => exact absurd rfl hf
  | floatNegation => exact ⟨_, _, does_floatNegation sizes.exponent sizes.fraction device⟩

namespace Library

variable {lib : Library} {name : String} {d : Design} {ports : List Port} {width : Width}
  {work : List Float}

/-! ## Sums of products -/

section SumOfProducts

variable {device : Device} {width count : Nat}

/-- The multiplier was built, and its copies' products were summed up. -/
def SumDone (device : Device) (width count : Nat) (op : Operator) : Prop :=
  ∃ t, device.start.accrueAll (Multiplier.work width device) = .ok t ∧
    Accomplished (·.Clear device.period device.pipelined t.cycle t.cycle)
      (SumOfProducts.ports width count) (.vector (SumOfProducts.outputWidth width count))
      ((SumOfProducts.rake width count).work device count) op

/-- The multiplier's work is refused, or what is left after it. -/
def SumRefused (device : Device) (width count : Nat) (e : Fault) : Prop :=
  device.start.accrueAll (Multiplier.work width device) = .error e ∨
    ∃ t, device.start.accrueAll (Multiplier.work width device) = .ok t ∧
      Timeline.Refuses (·.Clear device.period device.pipelined t.cycle t.cycle)
        ((SumOfProducts.rake width count).work device count) e

/-- Where a multiplier is found its products arrive in time. -/
def ProductsArrive (device : Device) (width : Nat) : Prop :=
  ∀ t, device.start.accrueAll (Multiplier.work width device) = .ok t → t.cycle ≤ maxCycle ∧
    ∀ t' : Timeline, t'.period = device.period → t'.pipelined = device.pipelined →
      t'.Admits t.criticalPath

/-- Copies of a multiplier are placed in an operator and their products are summed up. -/
theorem wp_finishing_sumCopies {op m : Operator} {sub : Handle} {t : Timeline}
    (hop : op = .blank op.handle op.name lib.device.period lib.device.pipelined)
    (hother : sub ≠ op.handle) (hm : lib.operator? sub = some m)
    (hshows : m.Shows (Adder.ports width) ⟨"R", .vector (2 * width), t.criticalPath⟩ t.cycle)
    (hperiod : lib.device.pipelined = true → 0 ≤ lib.device.period) (hcount : 1 ≤ count)
    (hcycle : t.cycle ≤ maxCycle)
    (hadmits : ∀ t' : Timeline, t'.period = lib.device.period →
      t'.pipelined = lib.device.pipelined → t'.Admits t.criticalPath) :
    (finishing (run (SumOfProducts.sumCopies width count lib.device sub).design)).wp
      (fun _ s => Accomplished (·.Clear lib.device.period lib.device.pipelined t.cycle t.cycle)
        (SumOfProducts.ports width count) (.vector (SumOfProducts.outputWidth width count))
        ((SumOfProducts.rake width count).work lib.device count) s.operator)
      (fun e _ => Timeline.Refuses
        (·.Clear lib.device.period lib.device.pipelined t.cycle t.cycle)
        ((SumOfProducts.rake width count).work lib.device count) e.fault) ⟨lib, op⟩ := by
  obtain ⟨sequential, hitf⟩ := hshows.interface
  have hsub := interface_eq_ok.mpr ⟨m, hm, hitf⟩
  have hblank : Progress (·.Clear lib.device.period lib.device.pipelined 0 t.cycle) [] [] [] [] op := by
    rw [hop]
    exact progress_blank (Timeline.clear_start hperiod t.cycle)
  refine wp_finishing_of_triple (SumOfProducts.triple_sumCopies lib.device hcount hsub hother
    ⟨rfl, rfl, rfl, rfl⟩ hcycle hadmits) (fun start t' hclear ht' hpipelined => ?_) hblank
  exact (Timeline.budgeted_accrueAll hclear.budgeted ht' hpipelined).toBounded

/-- A sum of products whose multiplier is not there yet. -/
theorem wp_finishing_sumOfProducts {settings : Settings} {op : Operator}
    (hlib : Faithful settings device lib) (hawaits : lib.Awaits op)
    (hop : op = .blank op.handle op.name device.period device.pipelined)
    (hfree : lib.lookup (multiplier width).name = none)
    (hperiod : device.pipelined = true → 0 ≤ device.period)
    (hwidth : 1 ≤ width) (hcount : 1 ≤ count) (harrive : ProductsArrive device width) :
    (finishing (run ((sumOfProducts width count).design device))).wp
      (fun _ s => SumDone device width count s.operator)
      (fun e _ => SumRefused device width count e.fault) ⟨lib, op⟩ := by
  have habsent : lib.find? (multiplier width).name = none := by
    simp [find?, hfree]
  have hdevice := hlib.device_eq
  have hmultiplier := wp_build_does hlib.lawful hfree
    (does_multiplier (parts_pos hwidth device)) (hdevice.symm ▸ hperiod)
  have hgenerates := generates hlib.lawful (multiplier width).name
    (builds_run ((multiplier width).design device))
  have hkept := hlib.generate_multiplier width
  rw [SumOfProducts.design_eq, wp_finishing_generate]
  refine wp_zoom.mpr ((wp_obtain (fun h op hfound => ?_) fun _ => hmultiplier).and
    wp_of_result |>.mono ?_ ?_)
  · rw [habsent] at hfound
    cases hfound
  · rintro sub lib₂ ⟨⟨m, hm, start, t, rfl, ht, hshows⟩, -, rfl⟩
    rw [hdevice] at ht
    obtain ⟨hcycle, hadmits⟩ := harrive t ht
    have hother := ne_of_awaits (hgenerates.extend.awaits hawaits) hm
    have hcopies := wp_finishing_sumCopies (hkept.device_eq.symm ▸ hop) hother hm hshows
      (hkept.device_eq.symm ▸ hperiod) hcount hcycle (hkept.device_eq.symm ▸ hadmits)
    rw [hkept.device_eq] at hcopies
    refine hcopies.mono (fun _ s hs => ⟨t, ht, hs⟩) fun e s he => .inr ⟨t, ht, he⟩
  · rintro e _ ⟨herror, -⟩
    rw [hdevice] at herror
    exact .inl herror

/-- In a new library no multiplier is there when a sum of products is described. -/
theorem wp_build_sumOfProducts (settings : Settings) (hwidth : 1 ≤ width) (hcount : 1 ≤ count)
    (hperiod : device.pipelined = true → 0 ≤ device.period)
    (harrive : ProductsArrive device width) :
    (build (sumOfProducts width count).name (run ((sumOfProducts width count).design device))).wp
      (fun h lib' => ∃ op, lib'.operator? h = some op ∧ SumDone device width count op)
      (fun e _ => SumRefused device width count e.fault) { settings, device } := by
  have hempty := faithful_empty settings device
  refine wp_build_of_finishing hempty.lawful (lookup_empty settings device _) (builds_run _)
    fun op lib₁ hres => ?_
  have hop : op = .blank op.handle op.name device.period device.pipelined := by
    have hblank := hres.operator
    rw [hblank]
    rfl
  refine (wp_finishing_sumOfProducts (hres.faithful hempty) hres.awaits hop ?_ hperiod hwidth hcount
    harrive).mono (fun _ s hs => ?_) fun _ _ he => he
  · simp [lookup, hres.index, sumOfProducts_name_ne width count width]
  · obtain ⟨t, ht, start, t', hstart, ht', hshows⟩ := hs
    exact ⟨isFinished_of_shows hshows, t, ht, start, t', hstart, ht', hshows⟩

end SumOfProducts

/-! ## Outcomes -/

/-- An operator of this depth was generated. -/
def Gives (o : Outcome Failure Library Handle) (depth : Nat) : Prop :=
  ∃ h op, o.result = .ok h ∧ o.state.operator? h = some op ∧ op.depth? = some depth

/-- Generation stopped because something takes longer than the period. -/
def OutOfTime (o : Outcome Failure Library Handle) (period : Float) : Prop :=
  ∃ e x, o.result = .error e ∧ e.fault = .unreachableTiming x period

section Outcomes

variable (settings : Settings) {device : Device} {f : Family} {sizes : Sizes}

/-- Generating a kind first of all is building it. -/
theorem wp_generate_empty {settings : Settings} {kind : Kind} {Q : Handle → Library → Prop}
    {E : Failure → Library → Prop}
    (hbuild : (build kind.name (run (kind.design device))).wp Q E { settings, device }) :
    (generate kind).wp Q E { settings, device } := by
  unfold wp
  rw [generate_empty]
  exact hbuild

/-- An answer cannot be missing if all failures are excluded. -/
theorem ok_of_wp {σ α : Type} {m : Action Failure σ α} {s : σ} {Q : α → σ → Prop}
    {E : Failure → σ → Prop} (h : m.wp Q E s) (hE : ∀ e t, ¬ E e t) :
    ∃ a, (m s).result = .ok a ∧ Q a (m s).state := by
  cases hresult : (m s).result with
  | ok a => exact ⟨a, rfl, h.of_ok hresult⟩
  | error e => exact absurd (h.of_error hresult) (hE e _)

theorem error_of_wp {σ α : Type} {m : Action Failure σ α} {s : σ} {Q : α → σ → Prop}
    {E : Failure → σ → Prop} (h : m.wp Q E s) (hQ : ∀ a t, ¬ Q a t) :
    ∃ e, (m s).result = .error e ∧ E e (m s).state := by
  cases hresult : (m s).result with
  | ok a => exact absurd (h.of_ok hresult) (hQ a _)
  | error e => exact ⟨e, rfl, h.of_error hresult⟩

/-- What the timeline makes of the work, generation makes of the kind. -/
theorem outcome_of_work (hsizes : ∀ n ∈ f.parameters sizes, 1 ≤ n) (hf : f ≠ .sumOfProducts)
    (hperiod : device.pipelined = true → 0 ≤ device.period) :
    let o := generate (f.kind sizes) { settings, device }
    (∀ t, device.start.accrueAll (f.work device sizes) = .ok t → Gives o t.cycle) ∧
    ∀ x, device.start.accrueAll (f.work device sizes) =
      .error (.unreachableTiming x device.period) → OutOfTime o device.period := by
  intro o
  obtain ⟨ports, width, hdoes⟩ := Family.does hsizes hf device
  have hgenerate := wp_generate_empty (wp_build_does (lawful_empty settings device)
    (lookup_empty settings device (f.kind sizes).name) hdoes hperiod)
  constructor
  · intro t ht
    obtain ⟨h, hok, op, hop, start, t', rfl, ht', hshows⟩ := ok_of_wp hgenerate fun e _ herror => by
      rw [ht] at herror
      cases herror
    obtain rfl := Except.ok.inj (ht.symm.trans ht')
    exact ⟨h, op, hok, hop, hshows.depth_eq⟩
  · intro x hx
    obtain ⟨e, herror, hfault⟩ := error_of_wp hgenerate fun h _ hdone => by
      obtain ⟨op, -, start, t, rfl, ht, -⟩ := hdone
      rw [hx] at ht
      cases ht
    exact ⟨e, x, herror, Except.error.inj (hfault.symm.trans hx)⟩

/-- A sum of products takes its multiplier's time, and its own after that. -/
theorem outcome_of_sum (hwidth : 1 ≤ sizes.width) (hcount : 1 ≤ sizes.count)
    (hperiod : device.pipelined = true → 0 ≤ device.period)
    (harrive : ProductsArrive device sizes.width) :
    let o := generate (Family.sumOfProducts.kind sizes) { settings, device }
    let own := (SumOfProducts.rake sizes.width sizes.count).work device sizes.count
    (∀ x, device.start.accrueAll (Multiplier.work sizes.width device) =
      .error (.unreachableTiming x device.period) → OutOfTime o device.period) ∧
    ∀ t, device.start.accrueAll (Multiplier.work sizes.width device) = .ok t →
      ((∀ s : Timeline, s.Clear device.period device.pipelined t.cycle t.cycle →
        ∃ t', s.accrueAll own = .ok t') →
        ∃ s t' : Timeline, s.Clear device.period device.pipelined t.cycle t.cycle ∧
          s.accrueAll own = .ok t' ∧ Gives o t'.cycle) ∧
      ((∀ s : Timeline, s.Clear device.period device.pipelined t.cycle t.cycle →
        ∃ x, s.accrueAll own = .error (.unreachableTiming x device.period)) →
        OutOfTime o device.period) := by
  intro o own
  have hgenerate := wp_generate_empty
    (wp_build_sumOfProducts settings hwidth hcount hperiod harrive)
  refine ⟨fun x hx => ?_, fun t ht => ⟨fun hown => ?_, fun hown => ?_⟩⟩
  · obtain ⟨e, herror, hrefused⟩ := error_of_wp hgenerate fun h _ hdone => by
      obtain ⟨op, -, t, ht, -⟩ := hdone
      rw [hx] at ht
      cases ht
    rcases hrefused with hmultiplier | ⟨t, ht, -⟩
    · exact ⟨e, x, herror, Except.error.inj (hmultiplier.symm.trans hx)⟩
    · rw [hx] at ht
      cases ht
  · obtain ⟨h, hok, op, hop, t₁, ht₁, s, t', hs, ht', hshows⟩ := ok_of_wp hgenerate fun e _ herror => by
      rcases herror with hmultiplier | ⟨t₁, ht₁, s, hs, hrefused⟩
      · rw [ht] at hmultiplier
        cases hmultiplier
      · obtain rfl := Except.ok.inj (ht.symm.trans ht₁)
        obtain ⟨t', ht'⟩ := hown s hs
        rw [ht'] at hrefused
        cases hrefused
    obtain rfl := Except.ok.inj (ht.symm.trans ht₁)
    exact ⟨s, t', hs, ht', h, op, hok, hop, hshows.depth_eq⟩
  · obtain ⟨e, herror, hrefused⟩ := error_of_wp hgenerate fun h _ hdone => by
      obtain ⟨op, -, t₁, ht₁, s, t', hs, ht', -⟩ := hdone
      obtain rfl := Except.ok.inj (ht.symm.trans ht₁)
      obtain ⟨x, hx⟩ := hown s hs
      rw [hx] at ht'
      cases ht'
    rcases hrefused with hmultiplier | ⟨t₁, ht₁, s, hs, hrefused⟩
    · rw [ht] at hmultiplier
      cases hmultiplier
    · obtain rfl := Except.ok.inj (ht.symm.trans ht₁)
      obtain ⟨x, hx⟩ := hown s hs
      exact ⟨e, x, herror, Except.error.inj (hrefused.symm.trans hx)⟩

end Outcomes

/-! ## Pipelined devices -/

section Pipelined

variable {device : Device} {f : Family} {sizes : Sizes} {work : List Float}

/-- On a new timeline work is done if and only if each piece fits the period. -/
theorem start_accrueAll (hpipelined : device.pipelined = true) (hfinite : device.period.isFinite)
    (hperiod : 0 ≤ device.period) (hwork : ∀ x ∈ work, 0 ≤ x) (hsmall : work.length - 1 ≤ maxCycle) :
    ((∀ x ∈ work, x ≤ device.period) →
      ∃ t, device.start.accrueAll work = .ok t ∧ t.Paced 0 (work.length - 1)) ∧
    ((∃ x ∈ work, ¬ x ≤ device.period) →
      ∃ x, device.start.accrueAll work = .error (.unreachableTiming x device.period)) := by
  unfold Device.start
  rw [hpipelined]
  exact Timeline.accrueAll_start hperiod hfinite hwork hsmall

/-- The depth of a feasible kind. -/
theorem gives_of_feasible (settings : Settings) (hregular : device.Regular)
    (hpipelined : device.pipelined = true) (hfinite : device.period.isFinite) (hperiod : 0 ≤ device.period)
    (hsizes : ∀ n ∈ f.parameters sizes, 1 ≤ n) (hf : f ≠ .sumOfProducts)
    (hsmall : (f.work device sizes).length - 1 ≤ maxCycle) :
    let o := generate (f.kind sizes) { settings, device }
    (f.Feasible device sizes → ∃ depth, Gives o depth ∧
      depth ≤ (f.work device sizes).length - 1) ∧
    (¬ f.Feasible device sizes → OutOfTime o device.period) := by
  intro o
  obtain ⟨hdone, hrefused⟩ := start_accrueAll hpipelined hfinite hperiod
    (work_nonneg hregular sizes f) hsmall
  obtain ⟨hgives, hout⟩ := outcome_of_work settings hsizes hf fun _ => hperiod
  rw [feasible_iff hregular hpipelined hsizes]
  refine ⟨fun hfits => ?_, fun hlong => ?_⟩
  · obtain ⟨t, ht, hpaced⟩ := hdone hfits
    exact ⟨t.cycle, hgives t ht, hpaced.le_last⟩
  · obtain ⟨x, hx⟩ := hrefused (by simpa using hlong)
    exact hout x hx

/-- The same where work starts in a later cycle. -/
theorem clear_accrueAll {s : Timeline} {cycle : Nat} (hpipelined : device.pipelined = true)
    (hfinite : device.period.isFinite) (hs : s.Clear device.period device.pipelined cycle cycle)
    (hwork : ∀ x ∈ work, 0 ≤ x) (hsmall : cycle + work.length ≤ maxCycle) :
    ((∀ x ∈ work, x ≤ device.period) →
      ∃ t, s.accrueAll work = .ok t ∧ t.Paced cycle (cycle + work.length)) ∧
    ((∃ x ∈ work, ¬ x ≤ device.period) →
      ∃ x, s.accrueAll work = .error (.unreachableTiming x device.period)) := by
  have hperiod := hs.period_eq
  rw [hpipelined] at hs
  rw [← hperiod]
  exact (hs.paced hfinite).accrueAll hwork hsmall

/-- A path that was reached within the period can arrive in any cycle of the device. -/
theorem admits_of_budgeted {t t' : Timeline} (hfinite : t.period.isFinite) (ht : t.Budgeted)
    (hperiod : t'.period = t.period) : t'.Admits t.criticalPath := by
  have hpath : 0 ≤ t.criticalPath := le_trans (ht.floor t.cycle).1 ht.floor_le
  refine ⟨isFinite_of_le hpath ht.path_le hfinite, not_lt_of_le hpath, fun hlong => ?_⟩
  exact not_lt_of_le ht.path_le (hperiod ▸ hlong.2)

theorem productsArrive_of_pipelined {width : Nat} (hregular : device.Regular)
    (hpipelined : device.pipelined = true) (hfinite : device.period.isFinite)
    (hperiod : 0 ≤ device.period)
    (hsmall : (Multiplier.work width device).length - 1 ≤ maxCycle) :
    ProductsArrive device width := by
  intro t ht
  obtain ⟨hdone, hrefused⟩ := start_accrueAll hpipelined hfinite hperiod
    (multiplier_nonneg hregular width) hsmall
  by_cases hfits : ∀ x ∈ Multiplier.work width device, x ≤ device.period
  · obtain ⟨t₁, ht₁, hpaced⟩ := hdone hfits
    obtain rfl := Except.ok.inj (ht.symm.trans ht₁)
    refine ⟨hpaced.le_last.trans hsmall, fun t' hsame _ => ?_⟩
    exact admits_of_budgeted hpaced.period_finite hpaced.toBudgeted
      (hsame.trans (Timeline.period_accrueAll ht).symm)
  · obtain ⟨x, hx⟩ := hrefused (by simpa using hfits)
    rw [hx] at ht
    cases ht

theorem length_multiplier_work (width : Nat) (device : Device) :
    (Multiplier.work width device).length = Multiplier.parts width device - 1 + 1 := by
  simp [Multiplier.work, Rake.work]

/-- The depth of a feasible sum of products lies above that of its multiplier. -/
theorem sum_gives_of_feasible (settings : Settings) (hregular : device.Regular)
    (hpipelined : device.pipelined = true) (hfinite : device.period.isFinite) (hperiod : 0 ≤ device.period)
    (hsizes : ∀ n ∈ Family.sumOfProducts.parameters sizes, 1 ≤ n)
    (hsmall : (Family.sumOfProducts.work device sizes).length - 1 ≤ maxCycle) :
    let multiplier := generate (Family.multiplier.kind sizes) { settings, device }
    let o := generate (Family.sumOfProducts.kind sizes) { settings, device }
    (Family.sumOfProducts.Feasible device sizes → ∃ depth, Gives o depth ∧
      ∃ first, Gives multiplier first ∧ first ≤ depth ∧ depth ≤ first + (sizes.count - 1)) ∧
    (¬ Family.sumOfProducts.Feasible device sizes → OutOfTime o device.period) := by
  intro multiplier o
  have hwidth := hsizes sizes.width (by simp [parameters])
  have hcount := hsizes sizes.count (by simp [parameters])
  have hlength : (Family.sumOfProducts.work device sizes).length =
      (Multiplier.work sizes.width device).length + (sizes.count - 1) := by
    simp [Family.work, Rake.work]
  have hfirst := length_multiplier_work sizes.width device
  have hsmall' : (Multiplier.work sizes.width device).length - 1 ≤ maxCycle := by omega
  have hown := rake_nonneg hregular (SumOfProducts.rake sizes.width sizes.count) sizes.count
  obtain ⟨hdone, hrefused⟩ := start_accrueAll hpipelined hfinite hperiod
    (multiplier_nonneg hregular sizes.width) hsmall'
  have hsizes' : ∀ n ∈ Family.multiplier.parameters sizes, 1 ≤ n := by
    simpa [parameters] using hwidth
  obtain ⟨hmultiplier, -⟩ := outcome_of_work settings hsizes' (by decide) fun _ => hperiod
  obtain ⟨hout, hrest⟩ := outcome_of_sum settings hwidth hcount (fun _ => hperiod)
    (productsArrive_of_pipelined hregular hpipelined hfinite hperiod hsmall')
  rw [feasible_iff hregular hpipelined hsizes]
  unfold Family.work
  rw [List.forall_mem_append]
  by_cases hfits : ∀ x ∈ Multiplier.work sizes.width device, x ≤ device.period
  · obtain ⟨t, ht, hpaced⟩ := hdone hfits
    obtain ⟨hgives, hlong⟩ := hrest t ht
    have hle := hpaced.le_last
    have hstarts := fun s (hs : Timeline.Clear device.period device.pipelined t.cycle t.cycle s) =>
      clear_accrueAll hpipelined hfinite hs hown (by simp only [Rake.work, List.length_replicate]; omega)
    refine ⟨fun hall => ?_, fun hnot => ?_⟩
    · obtain ⟨s, t', hs, ht', hgives'⟩ := hgives fun s hs => by
        obtain ⟨t', ht', -⟩ := (hstarts s hs).1 hall.2
        exact ⟨t', ht'⟩
      obtain ⟨t₁, ht₁, hpaced'⟩ := (hstarts s hs).1 hall.2
      obtain rfl := Except.ok.inj (ht'.symm.trans ht₁)
      have hlast := hpaced'.le_last
      simp only [Rake.work, List.length_replicate] at hlast
      exact ⟨t'.cycle, hgives', t.cycle, hmultiplier t ht, hpaced'.first_le, hlast⟩
    · have hsome : ∃ x ∈ (SumOfProducts.rake sizes.width sizes.count).work device sizes.count,
          ¬ x ≤ device.period := by
        simpa using fun hall => hnot ⟨hfits, hall⟩
      exact hlong fun s hs => (hstarts s hs).2 hsome
  · obtain ⟨x, hx⟩ := hrefused (by simpa using hfits)
    exact ⟨fun hall => absurd hall.1 hfits, fun _ => hout x hx⟩

end Pipelined

/-! ## Other devices -/

section Flat

variable {device : Device} {f : Family} {sizes : Sizes} {work : List Float}

/-- The sums of the first pieces of work are finite. -/
def FiniteSums (work : List Float) : Prop :=
  ∀ n, ((work.take n).foldl (· + ·) 0).isFinite

theorem finiteSums_of_append {rest : List Float} (h : FiniteSums (work ++ rest)) :
    FiniteSums work := by
  intro n
  have hsum := h (min n work.length)
  rwa [List.take_append_of_le_length (Nat.min_le_right _ _), ← List.take_eq_take_min] at hsum

theorem flat_accrueAll (hflat : device.pipelined = false) (hwork : ∀ x ∈ work, 0 ≤ x)
    (hsums : FiniteSums work) : ∃ t, device.start.accrueAll work = .ok t ∧ t.cycle = 0 ∧
      t.criticalPath = work.foldl (· + ·) 0 := by
  have hfinite := Timeline.finite_of_sums Timeline.zero_le_zero hwork hsums
  obtain ⟨t, ht, -, hcycle, hpath⟩ := Timeline.accrueAll_flat (t := device.start) hflat
    fun x hx => ⟨hwork x hx, hfinite x hx⟩
  exact ⟨t, ht, hcycle, hpath⟩

theorem productsArrive_of_flat {width : Nat} (hregular : device.Regular)
    (hflat : device.pipelined = false) (hsums : FiniteSums (Multiplier.work width device)) :
    ProductsArrive device width := by
  intro t ht
  have hnonneg := multiplier_nonneg hregular width
  obtain ⟨t₁, ht₁, hcycle, hpath⟩ := flat_accrueAll hflat hnonneg hsums
  obtain rfl := Except.ok.inj (ht.symm.trans ht₁)
  refine ⟨hcycle ▸ Nat.zero_le _, fun t' _ hpipelined => ⟨?_, ?_, fun hlong => ?_⟩⟩
  · rw [hpath]
    simpa using hsums (Multiplier.work width device).length
  · rw [hpath]
    exact not_lt_of_le (Timeline.foldl_nonneg Timeline.zero_le_zero hnonneg)
  · rw [hpipelined, hflat] at hlong
    cases hlong.1

theorem gives_zero (settings : Settings) (hregular : device.Regular)
    (hflat : device.pipelined = false) (hsizes : ∀ n ∈ f.parameters sizes, 1 ≤ n)
    (hsums : FiniteSums (f.work device sizes)) :
    Gives (generate (f.kind sizes) { settings, device }) 0 := by
  have hperiod : device.pipelined = true → 0 ≤ device.period := by simp [hflat]
  by_cases hf : f = .sumOfProducts
  · subst hf
    have hwidth := hsizes sizes.width (by simp [parameters])
    have hcount := hsizes sizes.count (by simp [parameters])
    have hnonneg := work_nonneg hregular sizes .sumOfProducts
    have hfinite := Timeline.finite_of_sums Timeline.zero_le_zero hnonneg hsums
    have hmultiplier := finiteSums_of_append hsums
    obtain ⟨t, ht, hcycle, -⟩ := flat_accrueAll hflat (multiplier_nonneg hregular _) hmultiplier
    have hown : ∀ s : Timeline, s.Clear device.period device.pipelined t.cycle t.cycle →
        ∃ t', s.accrueAll ((SumOfProducts.rake sizes.width sizes.count).work device sizes.count) =
          .ok t' ∧ t'.cycle = 0 := by
      intro s hs
      obtain ⟨t', ht', -, hcycle', -⟩ := Timeline.accrueAll_flat (hs.pipelined_eq.trans hflat)
        fun x hx => ⟨hnonneg x (List.mem_append_right _ hx), hfinite x (List.mem_append_right _ hx)⟩
      exact ⟨t', ht', by rw [hcycle', hs.cycle_eq, hcycle]⟩
    obtain ⟨s, t', hs, ht', hgives⟩ := ((outcome_of_sum settings hwidth hcount hperiod
      (productsArrive_of_flat hregular hflat hmultiplier)).2 t ht).1 fun s hs => by
        obtain ⟨t', ht', -⟩ := hown s hs
        exact ⟨t', ht'⟩
    obtain ⟨t₁, ht₁, hzero⟩ := hown s hs
    obtain rfl := Except.ok.inj (ht'.symm.trans ht₁)
    exact hzero ▸ hgives
  · obtain ⟨t, ht, hcycle, -⟩ := flat_accrueAll hflat (work_nonneg hregular sizes f) hsums
    exact hcycle ▸ (outcome_of_work settings hsizes hf hperiod).1 t ht

end Flat

/-! ## Exact schedulability -/

/-- A built-in kind that is generated first of all gives an operator on a pipelined device if
and only if it is feasible, and otherwise stops for lack of time. The depth has the given bounds.
On other devices every kind gives an operator without cycles, as long as its work adds up. -/
theorem schedulable_exactly (settings target : Settings) (f : Family) (sizes : Sizes)
    (hdelays : target.delays.Proper) (hsizes : ∀ n ∈ f.parameters sizes, 1 ≤ n)
    (hsmall : (f.work (.ofSettings target) sizes).length ≤ maxCycle + 1) :
    let device := Device.ofSettings target
    let generated (f : Family) := generate (f.kind sizes) { settings, device }
    (device.pipelined = true → device.period.isFinite → 0 < device.period →
      (f.Feasible device sizes → ∃ depth, Gives (generated f) depth ∧
        (f = .multiAdder → depth ≤ sizes.count - 2) ∧
        (f = .multiplier → depth ≤ Multiplier.parts sizes.width device - 1) ∧
        (f = .sumOfProducts → ∃ first, Gives (generated .multiplier) first ∧
          first ≤ depth ∧ depth ≤ first + (sizes.count - 1))) ∧
      (¬ f.Feasible device sizes → OutOfTime (generated f) device.period)) ∧
    (device.pipelined = false → FiniteSums (f.work device sizes) → Gives (generated f) 0) := by
  intro device generated
  have hregular := Device.regular_ofSettings hdelays
  have hlast : (f.work device sizes).length - 1 ≤ maxCycle := Nat.sub_le_of_le_add hsmall
  refine ⟨fun hpipelined hfinite hpositive => ?_, fun hflat hsums =>
    gives_zero settings hregular hflat hsizes hsums⟩
  have hperiod := le_of_lt hpositive
  by_cases hf : f = .sumOfProducts
  · subst hf
    obtain ⟨hgives, hout⟩ := sum_gives_of_feasible settings hregular hpipelined hfinite
      hperiod hsizes hlast
    refine ⟨fun hfeasible => ?_, hout⟩
    obtain ⟨depth, hdepth, hbounds⟩ := hgives hfeasible
    exact ⟨depth, hdepth, nofun, nofun, fun _ => hbounds⟩
  · obtain ⟨hgives, hout⟩ := gives_of_feasible settings hregular hpipelined hfinite
      hperiod hsizes hf hlast
    refine ⟨fun hfeasible => ?_, hout⟩
    obtain ⟨depth, hdepth, hle⟩ := hgives hfeasible
    refine ⟨depth, hdepth, ?_, ?_, fun hsum => absurd hsum hf⟩
    · rintro rfl
      simpa [Family.work, Rake.work, Nat.sub_sub] using hle
    · rintro rfl
      simpa [Family.work, length_multiplier_work] using hle

theorem sum_of_products_at_400MHz :
    let generated (f : Family) := generate (f.kind {}) (.ofSettings {})
    ∃ depth first, Gives (generated .sumOfProducts) depth ∧ Gives (generated .multiplier) first ∧
      first ≤ depth ∧ depth ≤ first + 3 := by
  intro generated
  have hsizes : ∀ n ∈ Family.sumOfProducts.parameters {}, 1 ≤ n := by decide
  have hsmall := Family.length_work_le hsizes (Device.ofSettings {})
  have hexact := schedulable_exactly {} {} .sumOfProducts {} (by decide) hsizes
    (hsmall.trans (by decide))
  obtain ⟨depth, hdepth, -, -, hbounds⟩ := (hexact.1 rfl (by decide) (by decide)).1 (by
    refine ⟨⟨by decide, .inr (by decide)⟩, .inr (by decide)⟩)
  obtain ⟨first, hfirst, hlow, hhigh⟩ := hbounds rfl
  exact ⟨depth, first, hdepth, hfirst, hlow, hhigh⟩

end Library

end Retime
