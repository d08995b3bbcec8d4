import Retime.Proofs.Kind.Names
import Retime.Proofs.Library.Coupling
import Retime.Proofs.Library.Permanence

/-! # Reuse

An operator that was built for one kind is reused wherever its name is asked for again.
Whatever was generated before, with whatever success, an operator under the name of a
built-in kind has the face of the operator that the kind gives when it is generated alone.
-/

namespace Retime

open Retime.Action

namespace Kind

/-! ## Designs that only call -/

/-- A design that only calls its operator, and places no copies. -/
def Plain (d : Design) : Prop :=
  ∀ sub sub', Design.Alike sub sub' d d

variable {sub sub' : Handle}

theorem Rake.alike_addTerms (r : Rake) (device : Device) (sum : String) (i count : Nat) :
    Build.Alike sub sub' (r.addTerms device sum i count) (r.addTerms device sum i count) := by
  induction count generalizing sum i with
  | zero => exact Build.alike_pure sum
  | succ count ih =>
      refine (Build.alike_call rfl).bind fun _ => (Build.alike_ask rfl).bind fun a => ?_
      exact (Build.alike_ask rfl).bind fun t => (Build.alike_call rfl).bind fun _ => ih _ _

theorem Rake.alike_build (r : Rake) (device : Device) (count : Nat) :
    Build.Alike sub sub' (r.build device count) (r.build device count) :=
  (r.alike_addTerms device _ _ _).bind fun _ => (Build.alike_ask rfl).bind fun _ =>
    Build.alike_call rfl

namespace Adder

theorem alike_carryInto (size i : Nat) :
    Build.Alike sub sub' (carryInto size i) (carryInto size i) := by
  cases i with
  | zero => exact Build.alike_pure _
  | succ i => exact (Build.alike_ask rfl).bind fun _ => Build.alike_pure _

theorem alike_build (width : Nat) (device : Device) :
    Build.Alike sub sub' (build width device) (build width device) := by
  refine ((Build.alike_call rfl).bind fun _ => Build.alike_call rfl).bind fun _ => ?_
  show Build.Alike sub sub' (if _ then _ else _) (if _ then _ else _)
  split
  · refine (Build.alike_call rfl).bind fun _ => (Build.alike_ask rfl).bind fun _ => ?_
    exact (Build.alike_ask rfl).bind fun _ => Build.alike_call rfl
  · refine (Build.alike_forEach (fun i => ?_) _).bind fun _ => ?_
    · refine (Build.alike_call rfl).bind fun _ => (Build.alike_ask rfl).bind fun _ => ?_
      refine (Build.alike_ask rfl).bind fun _ => (alike_carryInto _ _).bind fun _ => ?_
      exact Build.alike_call rfl
    · refine (Build.alike_forEach (fun i => ?_) _).bind fun _ => Build.alike_call rfl
      exact (Build.alike_ask rfl).bind fun _ => Build.alike_pure _

end Adder

theorem plain_adder (width : Nat) (device : Device) : Plain ((adder width).design device) :=
  fun _ _ => (Adder.alike_build width device).design

theorem plain_multiAdder (width count : Nat) (device : Device) :
    Plain ((multiAdder width count).design device) := fun _ _ =>
  Build.Alike.design ((Build.alike_forEach (fun _ => Build.alike_call rfl) _).bind fun _ =>
    Rake.alike_build _ device count)

theorem plain_multiplier (width : Nat) (device : Device) :
    Plain ((multiplier width).design device) := by
  intro sub sub'
  dsimp only [multiplier]
  refine Build.Alike.design ?_
  refine (Build.alike_call rfl).bind fun _ => (Build.alike_call rfl).bind fun _ => ?_
  refine (Build.alike_call rfl).bind fun _ => (Build.alike_ask rfl).bind fun _ => ?_
  refine (Build.alike_ask rfl).bind fun _ => ?_
  refine (Build.alike_forEach (fun _ => Build.alike_call rfl) _).bind fun _ => ?_
  exact Rake.alike_build _ device _

theorem plain_floatNegation (exponent fraction : Nat) (device : Device) :
    Plain ((floatNegation exponent fraction).design device) := by
  intro sub sub'
  dsimp only [floatNegation]
  refine Build.Alike.design ?_
  refine (Build.alike_call rfl).bind fun _ => (Build.alike_call rfl).bind fun _ => ?_
  refine (Build.alike_ask rfl).bind fun _ => (Build.alike_ask rfl).bind fun _ => ?_
  exact (Build.alike_ask rfl).bind fun _ => (Build.alike_ask rfl).bind fun _ =>
    Build.alike_call rfl

namespace SumOfProducts

/-- What follows when the multiplier is there. -/
def sumCopies (width count : Nat) (device : Device) (multiplier : Handle) : Build Unit := do
  let pairs := List.range count
  let _ ← Build.forEach (pairInputs width) pairs
  let _ ← Build.forEach (multiply multiplier) pairs
  let _ ← Build.forEach (fun i => Build.call (.join (productName i))) pairs
  let rake : Rake :=
    { width := outputWidth width count
      term := productName
      sum := fun i => s!"sop{i}" }
  rake.build device count

theorem design_eq (width count : Nat) (device : Device) :
    (sumOfProducts width count).design device =
      .generate (multiplier width).name ((multiplier width).design device)
        fun h => (sumCopies width count device h).design :=
  rfl

theorem alike_sumCopies (width count : Nat) (device : Device) (sub sub' : Handle) :
    Design.Alike sub sub' (sumCopies width count device sub).design
      (sumCopies width count device sub').design := by
  refine Build.Alike.design ?_
  refine (Build.alike_forEach (fun _ => (Build.alike_call rfl).bind fun _ =>
    Build.alike_call rfl) _).bind fun _ => ?_
  refine (Build.alike_forEach (fun _ => Build.alike_copy _ _) _).bind fun _ => ?_
  refine (Build.alike_forEach (fun _ => Build.alike_call rfl) _).bind fun _ => ?_
  exact Rake.alike_build _ device count

end SumOfProducts

end Kind

namespace Library

/-! ## Kinds alone -/

/-- `op` has the face of the operator that generating the kind gives where nothing else was
generated. -/
def Alone (settings : Settings) (device : Device) (kind : Kind) (op : Operator) : Prop :=
  let o := generate kind { settings, device }
  ∃ h' op', o.result = .ok h' ∧ o.state.operator? h' = some op' ∧ op.SameFace op'

/-- Every operator under the name of a built-in kind is that kind's. -/
structure Faithful (settings : Settings) (device : Device) (lib : Library) : Prop where
  lawful : lib.Lawful
  device_eq : lib.device = device
  alone : ∀ {h op} (f : Family) (sizes : Sizes), lib.operator? h = some op →
    op.name = (f.kind sizes).name → Alone settings device (f.kind sizes) op

variable {settings : Settings} {device : Device} {lib lib' : Library} {name : String}
  {h : Handle} {op : Operator}

theorem faithful_empty (settings : Settings) (device : Device) :
    Faithful settings device { settings, device } where
  lawful := lawful_empty settings device
  device_eq := rfl
  alone _ _ hop := by simp [operator?] at hop

theorem Reserves.faithful (hres : lib.Reserves name op lib') (hlib : Faithful settings device lib) :
    Faithful settings device lib' where
  lawful := hres.lawful hlib.lawful
  device_eq := hres.device.trans hlib.device_eq
  alone f sizes hop := hlib.alone f sizes (hres.operator? _ ▸ hop)

theorem Commits.faithful (hcom : lib.Commits op h lib') (hlib : Faithful settings device lib)
    (halone : ∀ (f : Family) (sizes : Sizes), op.name = (f.kind sizes).name →
      Alone settings device (f.kind sizes) op) :
    Faithful settings device lib' where
  lawful := hcom.lawful hlib.lawful
  device_eq := hcom.device.trans hlib.device_eq
  alone f sizes hop := by
    rw [hcom.operator?] at hop
    split at hop
    · obtain rfl := Option.some.inj hop
      exact halone f sizes
    · exact hlib.alone f sizes hop

/-! ## Plain kinds in two libraries -/

theorem coupled_plain {d : Design} (hd : Kind.Plain d) {op' : Operator}
    (hface : op.SameFace op') : Coupled (Site.Parallel lib lib' op.handle op'.handle)
      (finishing (run d)) (finishing (run d)) ⟨lib, op⟩ ⟨lib', op'⟩ :=
  coupled_finishing (couples_run (hd _ _) (looksAlike_self _ _ _ _) _ _ (parallel_of_face hface))

theorem build_transfer_plain {d : Design} (hd : Kind.Plain d) (hdevice : lib.device = lib'.device)
    (hlib' : lib'.Lawful) (hfree' : lib'.lookup name = none)
    (hok : (build name (run d) lib).result = .ok h) :
    ∃ h' op op', (build name (run d) lib').result = .ok h' ∧
      (build name (run d) lib).state.operator? h = some op ∧
      (build name (run d) lib').state.operator? h' = some op' ∧ op.SameFace op' := by
  refine build_transfer hlib' hfree' (builds_run d) (fun op lib₁ op' lib₁' hres hres' _ => ?_) hok
  obtain ⟨hresult, hparallel⟩ : Coupled (Site.Parallel lib₁ lib₁' op.handle op'.handle) _ _ _ _ :=
    coupled_plain hd (hres.face hres' hdevice)
  exact ⟨hresult, hparallel.face⟩

/-- What a plain kind gives alone, it gives wherever its name is free. -/
theorem Alone.build {kind : Kind} (halone : Alone settings device kind op)
    (hplain : Kind.Plain (kind.design device)) (hlib : lib.Lawful) (hdevice : lib.device = device)
    (hfree : lib.lookup kind.name = none) :
    ∃ h' op', (build kind.name (run (kind.design device)) lib).result = .ok h' ∧
      (build kind.name (run (kind.design device)) lib).state.operator? h' = some op' ∧
      op.SameFace op' := by
  obtain ⟨h₀, op₀, hok, hop₀, hface⟩ := halone
  rw [generate_empty] at hok hop₀
  obtain ⟨h', op₁, op', hok', hop₁, hop', hface'⟩ :=
    build_transfer_plain hplain hdevice.symm hlib hfree hok
  obtain rfl := Option.some.inj (hop₀.symm.trans hop₁)
  exact ⟨h', op', hok', hop', hface.trans hface'⟩

/-! ## Faithful libraries -/

section Faithful

variable (hlib : Faithful settings device lib)
include hlib

theorem Faithful.generate_eq (kind : Kind) :
    generate kind lib = obtain kind.name (run (kind.design device)) lib := by
  rw [← hlib.device_eq]
  rfl

/-- A library stays faithful when a built-in kind is generated, if it does while the operator
is described, and if the kind does the same alone. -/
theorem Faithful.generate_of (f : Family) (sizes : Sizes)
    (hlibrary : ∀ {op lib₁}, lib.Reserves (f.kind sizes).name op lib₁ →
      Faithful settings device
        (finishing (run ((f.kind sizes).design device)) ⟨lib₁, op⟩).state.library)
    (hcoupled : ∀ op lib₁ op' lib₁', lib.Reserves (f.kind sizes).name op lib₁ →
      ({ settings, device } : Library).Reserves (f.kind sizes).name op' lib₁' →
      (finishing (run ((f.kind sizes).design device)) ⟨lib₁, op⟩).result = .ok () →
      Coupled (fun s s' => s.operator.SameFace s'.operator)
        (finishing (run ((f.kind sizes).design device)))
        (finishing (run ((f.kind sizes).design device))) ⟨lib₁, op⟩ ⟨lib₁', op'⟩) :
    Faithful settings device (generate (f.kind sizes) lib).state := by
  have hgenerates := generates hlib.lawful (f.kind sizes).name
    (builds_run ((f.kind sizes).design device))
  rw [hlib.generate_eq]
  cases hfound : lib.find? (f.kind sizes).name with
  | some found =>
      rw [(hgenerates.reused hfound).2]
      exact hlib
  | none =>
      rw [obtain_of_absent hfound] at hgenerates ⊢
      cases hresult : (build (f.kind sizes).name (run ((f.kind sizes).design device)) lib).result with
      | ok h =>
          obtain ⟨h', op, op', hok', hop, hop', hface⟩ := build_transfer
            (lawful_empty settings device) (lookup_empty settings device _) (builds_run _)
            hcoupled hresult
          have halone : Alone settings device (f.kind sizes) op := by
            refine ⟨h', op', ?_, ?_, hface⟩ <;> rwa [generate_empty]
          obtain ⟨-, op₂, hop₂, -, hname⟩ := hgenerates.built hfound hresult
          obtain rfl := Option.some.inj (hop.symm.trans hop₂)
          obtain ⟨op₁, lib₁, hres, -, hcom⟩ := ok_of_build hresult
          rw [hcom.operator?, if_pos hcom.handle.symm] at hop
          obtain rfl := Option.some.inj hop
          refine hcom.faithful (hlibrary hres) fun f' sizes' hname' => ?_
          obtain ⟨rfl, hparameters⟩ := Family.name_injective (hname.symm.trans hname')
          rwa [← Family.kind_eq hparameters]
      | error e =>
          refine (wp_build (Q := fun _ _ => True) (E := fun _ lib' => Faithful settings device lib')
            (fun _ _ => hlib) fun op lib₁ hres => ?_).of_error hresult
          have hkept := hlibrary hres
          refine wp_of_result.mono ?_ ?_
          · rintro _ s ⟨-, rfl⟩
            exact ⟨fun _ _ => hkept, fun _ _ _ => trivial⟩
          · rintro _ s ⟨-, rfl⟩
            exact hkept

theorem Faithful.generate_plain (f : Family) (sizes : Sizes)
    (hplain : Kind.Plain ((f.kind sizes).design device)) :
    Faithful settings device (generate (f.kind sizes) lib).state := by
  refine hlib.generate_of f sizes (fun {op lib₁} hres => ?_) fun op lib₁ op' lib₁' hres hres' _ => ?_
  · rw [library_finishing (hplain op.handle op.handle)]
    exact hres.faithful hlib
  · obtain ⟨hresult, hparallel⟩ : Coupled (Site.Parallel lib₁ lib₁' op.handle op'.handle) _ _ _ _ :=
      coupled_plain hplain (hres.face hres' hlib.device_eq)
    exact ⟨hresult, hparallel.face⟩

/-- The operator that a built-in kind gives is the one that it gives alone. -/
theorem Faithful.alone_of_generate (f : Family) (sizes : Sizes)
    (hkept : Faithful settings device (generate (f.kind sizes) lib).state)
    (hok : (generate (f.kind sizes) lib).result = .ok h) :
    ∃ op, (generate (f.kind sizes) lib).state.operator? h = some op ∧
      Alone settings device (f.kind sizes) op := by
  have hgenerates := generates_kind hlib.lawful (f.kind sizes)
  cases hfound : lib.find? (f.kind sizes).name with
  | some found =>
      obtain ⟨hresult, hstate⟩ := hgenerates.reused hfound
      obtain rfl := Except.ok.inj (hresult.symm.trans hok)
      obtain ⟨hlookup, hop⟩ := find?_eq_some.mp hfound
      obtain ⟨slot, hslot, hname⟩ := hlib.lawful.lookup_iff.mp hlookup
      obtain ⟨slot', hslot', hcommitted⟩ := operator?_eq_some.mp hop
      obtain rfl := Option.some.inj (hslot.symm.trans hslot')
      refine ⟨found.2, by rwa [hstate], hlib.alone f sizes hop ?_⟩
      rw [(hlib.lawful.committed hslot hcommitted).2.2, hname]
  | none =>
      obtain ⟨-, op, hop, -, hname⟩ := hgenerates.built hfound hok
      exact ⟨op, hop, hkept.alone f sizes hop hname⟩

end Faithful

/-! ## Sums of products -/

section SumOfProducts

variable {sizes : Sizes}

theorem Faithful.generate_multiplier (hlib : Faithful settings device lib) (width : Nat) :
    Faithful settings device
      (obtain (Kind.multiplier width).name (run ((Kind.multiplier width).design device)) lib).state := by
  rw [← hlib.generate_eq]
  exact hlib.generate_plain .multiplier { width } (Kind.plain_multiplier width device)

theorem Faithful.alone_multiplier (hlib : Faithful settings device lib) (width : Nat)
    (hok : (obtain (Kind.multiplier width).name (run ((Kind.multiplier width).design device))
      lib).result = .ok h) :
    ∃ op, (obtain (Kind.multiplier width).name (run ((Kind.multiplier width).design device))
      lib).state.operator? h = some op ∧ Alone settings device (Kind.multiplier width) op := by
  have hkept := hlib.generate_multiplier width
  rw [← hlib.generate_eq] at hok hkept ⊢
  exact hlib.alone_of_generate .multiplier { width } hkept hok

/-- Describing a sum of products generates its multiplier and nothing else. -/
theorem Faithful.finishing_sumOfProducts (hlib : Faithful settings device lib) (width count : Nat)
    (op : Operator) : Faithful settings device
      (finishing (run ((Kind.sumOfProducts width count).design device)) ⟨lib, op⟩).state.library := by
  have hmultiplier := hlib.generate_multiplier width
  rw [Kind.SumOfProducts.design_eq]
  refine wp.state (P := fun s => Faithful settings device s.library)
    (wp_finishing_generate.mpr (wp_zoom.mpr (wp_of_result.mono ?_ ?_)))
  · rintro h _ ⟨-, rfl⟩
    have hrest := Kind.SumOfProducts.alike_sumCopies width count device h h
    refine wp_of_result.mono ?_ ?_
    · rintro _ s ⟨-, rfl⟩
      rw [library_finishing hrest]
      exact hmultiplier
    · rintro _ s ⟨-, rfl⟩
      rw [library_finishing hrest]
      exact hmultiplier
  · rintro e _ ⟨-, rfl⟩
    exact hmultiplier

/-- A sum of products that is described in one library is described in every other one that
does not have its multiplier yet. -/
theorem coupled_sumOfProducts {op' : Operator} (width count : Nat)
    (hlib : Faithful settings device lib) (hlib' : Faithful settings device lib')
    (hawaits : lib.Awaits op) (hawaits' : lib'.Awaits op') (hface : op.SameFace op')
    (hfree' : lib'.lookup (Kind.multiplier width).name = none)
    (hdone : (finishing (run ((Kind.sumOfProducts width count).design device))
      ⟨lib, op⟩).result = .ok ()) :
    Coupled (fun s s' => s.operator.SameFace s'.operator)
      (finishing (run ((Kind.sumOfProducts width count).design device)))
      (finishing (run ((Kind.sumOfProducts width count).design device)))
      ⟨lib, op⟩ ⟨lib', op'⟩ := by
  obtain ⟨_, hrun⟩ := ok_of_bind hdone
  rw [Kind.SumOfProducts.design_eq] at hrun
  obtain ⟨h, hok⟩ := ok_of_bind (m := Site.onLibrary (obtain (Kind.multiplier width).name
    (run ((Kind.multiplier width).design device)))) hrun
  change (obtain _ _ lib).result = _ at hok
  -- the multiplier of the first run is the one that is built in the second
  have hbuilds := builds_run ((Kind.multiplier width).design device)
  have hgenerates := generates hlib.lawful (Kind.multiplier width).name hbuilds
  have hgenerates' := generates hlib'.lawful (Kind.multiplier width).name hbuilds
  obtain ⟨m, hm, halone⟩ := hlib.alone_multiplier width hok
  obtain ⟨h', m', hok', hm', hsame⟩ := halone.build (Kind.plain_multiplier width device)
    hlib'.lawful hlib'.device_eq hfree'
  have habsent' : lib'.find? (Kind.multiplier width).name = none := by
    simp [find?, hfree']
  rw [← obtain_of_absent habsent'] at hok' hm'
  have hitf := interface_congr hgenerates.lawful hgenerates'.lawful hm hm' hsame
  have hrest := couples_run (Kind.SumOfProducts.alike_sumCopies width count device h h')
    (looksAlike_of_interface (ne_of_awaits (hgenerates.extend.awaits hawaits) hm)
      (ne_of_awaits (hgenerates'.extend.awaits hawaits') hm') hitf) _ _ (parallel_of_face hface)
  rw [Kind.SumOfProducts.design_eq]
  obtain ⟨hresult, hparallel⟩ := coupled_finishing (coupled_run_generate
    (fun h => (Kind.SumOfProducts.sumCopies width count device h).design)
    (fun h => (Kind.SumOfProducts.sumCopies width count device h).design) hok hok' hrest)
  exact ⟨hresult, hparallel.face⟩

theorem Faithful.generate_sumOfProducts (hlib : Faithful settings device lib) (sizes : Sizes) :
    Faithful settings device (generate (Family.sumOfProducts.kind sizes) lib).state := by
  refine hlib.generate_of .sumOfProducts sizes
    (fun hres => (hres.faithful hlib).finishing_sumOfProducts sizes.width sizes.count _)
    fun op lib₁ op' lib₁' hres hres' hdone => ?_
  have hlib₁ := hres.faithful hlib
  have hlib₁' := hres'.faithful (faithful_empty settings device)
  refine coupled_sumOfProducts sizes.width sizes.count hlib₁ hlib₁' hres.awaits hres'.awaits
    (hres.face hres' hlib.device_eq) ?_ hdone
  have hne : (Family.sumOfProducts.kind sizes).name ≠ (Kind.multiplier sizes.width).name :=
    Kind.sumOfProducts_name_ne sizes.width sizes.count sizes.width
  simp [lookup, hres'.index, hne]

end SumOfProducts

/-! ## Any history -/

/-- The library after any number of built-in kinds were generated, some perhaps in vain. -/
def generated (lib : Library) (history : List (Family × Sizes)) : Library :=
  history.foldl (fun lib k => (generate (k.1.kind k.2) lib).state) lib

theorem Faithful.generate (hlib : Faithful settings device lib) (f : Family) (sizes : Sizes) :
    Faithful settings device (generate (f.kind sizes) lib).state := by
  cases f with
  | adder => exact hlib.generate_plain .adder sizes (Kind.plain_adder _ _)
  | multiAdder => exact hlib.generate_plain .multiAdder sizes (Kind.plain_multiAdder _ _ _)
  | multiplier => exact hlib.generate_plain .multiplier sizes (Kind.plain_multiplier _ _)
  | sumOfProducts => exact hlib.generate_sumOfProducts sizes
  | floatNegation => exact hlib.generate_plain .floatNegation sizes (Kind.plain_floatNegation _ _ _)

theorem Faithful.generated (hlib : Faithful settings device lib) (history : List (Family × Sizes)) :
    Faithful settings device (lib.generated history) := by
  induction history generalizing lib with
  | nil => exact hlib
  | cons k history ih => exact ih (hlib.generate k.1 k.2)

/-- Whatever built-in kinds were generated before, a kind that gives an operator now gives one
when it is generated alone, with the same Verilog text, depth, registers and interface; and the
names of two kinds that differ in their families or in any parameter differ. -/
theorem reuse_is_faithful (settings : Settings) (device : Device)
    (history : List (Family × Sizes)) (f : Family) (sizes : Sizes) :
    let fresh : Library := { settings, device }
    let alone := Library.generate (f.kind sizes) fresh
    let o := Library.generate (f.kind sizes) (fresh.generated history)
    (∀ h, o.result = .ok h →
      ∃ op h' op', o.state.operator? h = some op ∧
        alone.result = .ok h' ∧ alone.state.operator? h' = some op' ∧
        op.toVerilog = op'.toVerilog ∧ op.depth? = op'.depth? ∧
        op.schedule.map (·.registerCount) = op'.schedule.map (·.registerCount) ∧
        op.interface? = op'.interface?) ∧
    ∀ (f' : Family) (sizes' : Sizes), (f.kind sizes).name = (f'.kind sizes').name →
      f = f' ∧ f.parameters sizes = f'.parameters sizes' ∧ f.kind sizes = f'.kind sizes' := by
  intro fresh alone o
  refine ⟨fun h hok => ?_, fun f' sizes' hname => ?_⟩
  · have hlib := (faithful_empty settings device).generated history
    obtain ⟨op, hop, h', op', hok', hop', hface⟩ :=
      hlib.alone_of_generate f sizes (hlib.generate f sizes) hok
    exact ⟨op, h', op', hop, hok', hop', hface.toVerilog, hface.depth?,
      congrArg (Option.map _) hface.schedule, hface.interface?⟩
  · obtain ⟨rfl, hparameters⟩ := Family.name_injective hname
    exact ⟨rfl, hparameters, Family.kind_eq hparameters⟩

end Library

end Retime
