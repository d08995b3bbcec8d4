import Retime.Proofs.Library.Finishing
import Retime.Proofs.Operator.Face

/-! # Two libraries

A design that only calls its operator does the same in every library for the same device,
apart from handles. So if it is built in one library, it is built in every other one in which
its name is free, with the same face.
-/

namespace Retime

open Retime.Action

/-- Two designs make the same calls in the same order, except that one places copies of `sub`
where the other one places copies of `sub'`; neither generates operators or asks for them. -/
inductive Design.Alike (sub sub' : Handle) : Design → Design → Prop where
  | done : Alike sub sub' .done .done
  | call (c : Call) {next next' : Option String → Design} (hc : c.isCopy = false)
      (hnext : ∀ answer, Alike sub sub' (next answer) (next' answer)) :
      Alike sub sub' (.call c next) (.call c next')
  | copy (name : String) (wiring : Wiring) {next next' : Option String → Design}
      (hnext : ∀ answer, Alike sub sub' (next answer) (next' answer)) :
      Alike sub sub' (.call (.instantiate sub name wiring) next)
        (.call (.instantiate sub' name wiring) next')

/-! ## Designs piece by piece -/

namespace Build

variable {α β : Type} {sub sub' : Handle}

/-- Two pieces of designs are alike if they go on alike. -/
def Alike (sub sub' : Handle) (m m' : Build α) : Prop :=
  ∀ next next', (∀ a, Design.Alike sub sub' (next a) (next' a)) →
    Design.Alike sub sub' (m next) (m' next')

theorem Alike.design {m m' : Build Unit} (h : Alike sub sub' m m') :
    Design.Alike sub sub' m.design m'.design :=
  h _ _ fun _ => .done

theorem alike_pure (a : α) : Alike sub sub' (pure a : Build α) (pure a) :=
  fun _ _ h => h a

theorem Alike.bind {m m' : Build α} {f f' : α → Build β} (hm : Alike sub sub' m m')
    (hf : ∀ a, Alike sub sub' (f a) (f' a)) : Alike sub sub' (m >>= f) (m' >>= f') :=
  fun next next' h => hm _ _ fun a => hf a next next' h

theorem alike_call {c : Call} (hc : c.isCopy = false) : Alike sub sub' (call c) (call c) :=
  fun _ _ h => .call c hc fun _ => h ()

theorem alike_ask {c : Call} (hc : c.isCopy = false) : Alike sub sub' (ask c) (ask c) :=
  fun _ _ h => .call c hc fun answer => h (answer.getD "")

theorem alike_copy (name : String) (wiring : Wiring) :
    Alike sub sub' (call (.instantiate sub name wiring)) (call (.instantiate sub' name wiring)) :=
  fun _ _ h => .copy name wiring fun _ => h ()

theorem alike_forEach {f f' : α → Build β} (hf : ∀ a, Alike sub sub' (f a) (f' a))
    (items : List α) : Alike sub sub' (forEach f items) (forEach f' items) := by
  induction items with
  | nil => exact alike_pure _
  | cons a items ih => exact (hf a).bind fun b => ih.bind fun bs => alike_pure _

end Build

/-! ## Runs in two libraries -/

/-- Each site has its library and its operator in its place, and the operators have the same
face. -/
structure Site.Parallel (lib lib' : Library) (h h' : Handle) (s s' : Site) : Prop where
  library : s.library = lib
  library' : s'.library = lib'
  handle : s.operator.handle = h
  handle' : s'.operator.handle = h'
  face : s.operator.SameFace s'.operator

namespace Library

variable {lib lib' : Library} {name : String} {sub sub' h h' : Handle}

/-- The operator `sub` looks to the operator at `h` as `sub'` does to the one at `h'`. -/
def LooksAlike (lib lib' : Library) (h h' sub sub' : Handle) : Prop :=
  ∀ op op' : Operator, op.SameFace op' → op.handle = h → op'.handle = h' →
    op.subInterface lib sub = op'.subInterface lib' sub'

/-- No operator sees itself. -/
theorem looksAlike_self (lib lib' : Library) (h h' : Handle) : LooksAlike lib lib' h h' h h' := by
  intro op op' hface hh hh'
  simp [Operator.subInterface, hh, hh', hface.name]

/-- Every operator looks the same to the same operator. -/
theorem looksAlike_refl (lib : Library) (h sub : Handle) : LooksAlike lib lib h h sub sub := by
  intro op op' hface hh hh'
  simp [Operator.subInterface, hh, hh', hface.name]

theorem looksAlike_of_interface (hsub : sub ≠ h) (hsub' : sub' ≠ h')
    (hitf : lib.interface sub = lib'.interface sub') : LooksAlike lib lib' h h' sub sub' := by
  intro op op' _ hh hh'
  simp [Operator.subInterface, hh, hh', hsub, hsub', hitf]

theorem coupled_perform {s s' : Site} (hs : Site.Parallel lib lib' h h' s s') {c c' : Call}
    (hcall : Coupled Operator.SameFace (Operator.perform lib c) (Operator.perform lib' c')
      s.operator s'.operator) :
    Coupled (Site.Parallel lib lib' h h') (Site.perform c) (Site.perform c') s s' := by
  obtain ⟨rfl, rfl, rfl, rfl, -⟩ := hs
  exact ⟨hcall.1, rfl, rfl, (s.operator.identity_step (s.library, c)).1,
    (s'.operator.identity_step (s'.library, c')).1, hcall.2⟩

theorem couples_perform {c : Call} (hc : c.isCopy = false) :
    Couples (Site.Parallel lib lib' h h') (Site.perform c) (Site.perform c) := by
  intro s s' hs
  apply coupled_perform hs
  exact Operator.coupled_perform hs.face rfl (Operator.agree_execute hc lib lib' _ _ hs.face)

/-- Alike designs are run alike. -/
theorem couples_run {d d' : Design} (halike : Design.Alike sub sub' d d')
    (hsub : LooksAlike lib lib' h h' sub sub') :
    Couples (Site.Parallel lib lib' h h') (run d) (run d') := by
  induction halike with
  | done => exact couples_pure ()
  | call c hc hnext ih => exact (couples_perform hc).bind ih
  | copy name wiring hnext ih =>
      refine Couples.bind (fun s s' hs => coupled_perform hs ?_) ih
      have hitf := hsub s.operator s'.operator hs.face hs.handle hs.handle'
      exact Operator.coupled_perform hs.face rfl
        ((Operator.coupled_instantiate hs.face hitf name wiring).bind fun _ => couples_pure _)

/-- A committed operator shows the same interface as one with the same face. -/
theorem interface_congr {op op' : Operator} (hlib : lib.Lawful) (hlib' : lib'.Lawful)
    (hop : lib.operator? h = some op) (hop' : lib'.operator? h' = some op')
    (hface : op.SameFace op') : lib.interface h = lib'.interface h' := by
  obtain ⟨slot, hslot, hcommitted⟩ := operator?_eq_some.mp hop
  obtain ⟨slot', hslot', hcommitted'⟩ := operator?_eq_some.mp hop'
  have hname : slot.name = slot'.name := by
    rw [← (hlib.committed hslot hcommitted).2.2, ← (hlib'.committed hslot' hcommitted').2.2]
    exact hface.name
  simp [interface, hslot, hslot', hcommitted, hcommitted', hface.interface?, hname]

theorem parallel_of_face {op op' : Operator} (hface : op.SameFace op') :
    Site.Parallel lib lib' op.handle op'.handle ⟨lib, op⟩ ⟨lib', op'⟩ :=
  ⟨rfl, rfl, rfl, rfl, hface⟩

/-- Operators for which one name is reserved have the same face if they are for one device. -/
theorem Reserves.face {op op' : Operator} {lib₁ lib₁' : Library} (hres : lib.Reserves name op lib₁)
    (hres' : lib'.Reserves name op' lib₁') (hdevice : lib.device = lib'.device) :
    op.SameFace op' := by
  rw [hres.operator, hres'.operator, hdevice]
  exact ⟨rfl, rfl, rfl, rfl, rfl, rfl, rfl, rfl⟩

theorem coupled_finishing {describe describe' : Action Failure Site Unit} {s s' : Site}
    (hdescribe : Coupled (Site.Parallel lib lib' h h') describe describe' s s') :
    Coupled (Site.Parallel lib lib' h h') (finishing describe) (finishing describe') s s' :=
  hdescribe.bind fun _ => (couples_perform rfl).bind fun _ => couples_pure _

/-- A design that is like itself leaves the library as it is. -/
theorem library_finishing {d : Design} (hd : Design.Alike sub sub d d) (op : Operator) :
    (finishing (run d) ⟨lib, op⟩).state.library = lib :=
  (coupled_finishing (couples_run hd (looksAlike_refl lib op.handle sub) _ _
    (parallel_of_face (.refl op)))).2.library

/-- Operators that are generated under one name may have different handles. -/
theorem coupled_run_generate {P : Site → Site → Prop} {body : Design}
    (next next' : Handle → Design) {op op' : Operator}
    (hok : (obtain name (run body) lib).result = .ok h)
    (hok' : (obtain name (run body) lib').result = .ok h')
    (hrest : Coupled P (run (next h)) (run (next' h'))
      ⟨(obtain name (run body) lib).state, op⟩ ⟨(obtain name (run body) lib').state, op'⟩) :
    Coupled P (run (.generate name body next)) (run (.generate name body next'))
      ⟨lib, op⟩ ⟨lib', op'⟩ :=
  coupled_bind_of_ok hok hok' hrest

/-! ## Building in two libraries -/

section Build

variable {describe describe' : Action Failure Site Unit}

/-- What is built in one library is built in every other one in which its name is free, with
the same face, if describing and finishing it does the same in both. -/
theorem build_transfer (hlib' : lib'.Lawful) (hfree' : lib'.lookup name = none)
    (hdescribe' : Builds describe')
    (hcoupled : ∀ op lib₁ op' lib₁', lib.Reserves name op lib₁ → lib'.Reserves name op' lib₁' →
      (finishing describe ⟨lib₁, op⟩).result = .ok () →
      Coupled (fun s s' => s.operator.SameFace s'.operator)
        (finishing describe) (finishing describe') ⟨lib₁, op⟩ ⟨lib₁', op'⟩)
    (hok : (build name describe lib).result = .ok h) :
    ∃ h' op op', (build name describe' lib').result = .ok h' ∧
      (build name describe lib).state.operator? h = some op ∧
      (build name describe' lib').state.operator? h' = some op' ∧ op.SameFace op' := by
  obtain ⟨op, lib₁, hres, hdone, hcom⟩ := ok_of_build hok
  have hbuilt : (build name describe').wp
      (fun h' lib₂ => ∃ op', lib₂.operator? h' = some op' ∧
        (finishing describe ⟨lib₁, op⟩).state.operator.SameFace op')
      (fun _ _ => False) lib' := by
    refine wp_build_of_finishing hlib' hfree' hdescribe' fun op' lib₁' hres' => ?_
    obtain ⟨hresult, hface⟩ := hcoupled op lib₁ op' lib₁' hres hres' hdone
    refine wp_of_result.mono ?_ ?_
    · rintro _ s ⟨-, rfl⟩
      refine ⟨?_, hface⟩
      rw [← hcom.finished]
      exact (congrArg Option.isSome hface.schedule).symm
    · rintro e s ⟨herror, -⟩
      have hcontra := hresult.symm.trans hdone
      rw [herror] at hcontra
      cases hcontra
  have hop : (build name describe lib).state.operator? h =
      some (finishing describe ⟨lib₁, op⟩).state.operator := by
    rw [hcom.operator?, if_pos hcom.handle.symm]
  cases hresult' : (build name describe' lib').result with
  | error e => exact (hbuilt.of_error hresult').elim
  | ok h' =>
      obtain ⟨op', hop', hface⟩ := hbuilt.of_ok hresult'
      exact ⟨h', _, op', rfl, hop, hop', hface⟩

end Build

end Library

end Retime
