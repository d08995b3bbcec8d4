import Retime.Library.Generate
import Retime.Proofs.Library.Arena
import Retime.Proofs.Operator.Frame

/-! # Builds

A build describes an operator at a site by calls on it and by generating others in the same
library; it may look at the site, choose what comes next by the answers, and go on after a
failure. Whatever it does, the slots that were there stay as they were, and the operator
keeps its place. What reservations, calls and commits keep, every build keeps.
-/

namespace Retime

open Retime.Action

namespace Action

variable {ε σ α : Type}

/-- Answers with the result of an action, be it an error. -/
def attempt (m : Action ε σ α) : Action ε σ (Except ε α) := fun s =>
  let o := m s
  { result := .ok o.result, state := o.state, events := o.events }

theorem wp_attempt {m : Action ε σ α} {Q : Except ε α → σ → Prop} {E : ε → σ → Prop} {s : σ} :
    m.attempt.wp Q E s ↔ m.wp (fun a => Q (.ok a)) (fun e => Q (.error e)) s := by
  unfold wp attempt
  rcases m s with ⟨_ | a, t, events⟩ <;> rfl

end Action

namespace Library

/-- The actions that builds consist of. -/
inductive Builds : {α : Type} → Action Failure Site α → Prop where
  | pure {α : Type} (a : α) : Builds (pure a)
  | stop {α : Type} (e : Failure) : Builds (Action.stop e : Action Failure Site α)
  | report (e : Event) : Builds (Action.report e)
  | look : Builds Action.get
  | call (c : Call) : Builds (Site.perform c)
  | generate (name : String) {describe : Action Failure Site Unit} (hdescribe : Builds describe) :
      Builds (Site.onLibrary (obtain name describe))
  | bind {α β : Type} {m : Action Failure Site α} {f : α → Action Failure Site β}
      (hm : Builds m) (hf : ∀ a, Builds (f a)) : Builds (m >>= f)
  | attempt {α : Type} {m : Action Failure Site α} (hm : Builds m) : Builds m.attempt

/-- Designs are builds. -/
theorem builds_run (d : Design) : Builds (run d) := by
  induction d with
  | done => exact .pure ()
  | call c next ih => exact .bind (.call c) ih
  | generate name body next ihbody ih => exact .bind (.generate name ihbody) ih
  | lookup name next ih => exact .bind .look fun _ => ih _

/-- `R` holds of libraries and `Q` of the operators that are built for them, however these
are reserved, called and committed. -/
structure Invariant (R : Library → Prop) (Q : Library → Operator → Prop) : Prop where
  reserve : ∀ {lib name op lib'}, R lib → lib.Reserves name op lib' → R lib' ∧ Q lib' op
  extend : ∀ {lib lib' op}, Q lib op → lib.Extends lib' → Q lib' op
  step : ∀ {lib op} (c : Call), R lib → Q lib op → Q lib (op.step (lib, c))
  commit : ∀ {lib op h lib'}, R lib → Q lib op → lib.Commits op h lib' → R lib'

/-- What a build that was started at `s` leaves, at its end or where it stopped. -/
structure Leaves (R : Library → Prop) (Q : Library → Operator → Prop) (s s' : Site) : Prop where
  extend : s.library.Extends s'.library
  handle : s'.operator.handle = s.operator.handle
  name : s'.operator.name = s.operator.name
  library : R s'.library
  operator : Q s'.library s'.operator

/-- A new operator was committed. -/
structure Built (R : Library → Prop) (lib : Library) (name : String) (h : Handle)
    (lib' : Library) : Prop where
  extend : lib.Extends lib'
  library : R lib'
  fresh : lib.slots[h]? = none
  committed : ∃ op, lib'.operator? h = some op ∧ op.isFinished = true ∧ op.name = name

/-- No operator was committed: nothing was done, or the name is only reserved now. -/
structure Abandoned (R : Library → Prop) (lib : Library) (name : String) (lib' : Library) :
    Prop where
  extend : lib.Extends lib'
  library : R lib'
  unfilled : lib' = lib ∨ ∃ h : Handle, lib'.slots[h]? = some { name }

variable {lib : Library} {name : String} {describe : Action Failure Site Unit}

/-! ## The pieces of generation -/

theorem wp_perform {c : Call} {s : Site} {P : Site → Prop}
    (h : P { s with operator := s.operator.step (s.library, c) }) :
    (Site.perform c).wp (fun _ => P) (fun _ => P) s := by
  unfold Site.perform
  rw [wp_bind, wp_get, wp_zoom]
  refine wp_of_result.mono ?_ ?_
  · rintro answer op ⟨-, rfl⟩
    exact h
  · rintro e op ⟨-, rfl⟩
    exact h

/-- A new operator is described and finished at its site, and then committed. -/
theorem wp_build {Q : Handle → Library → Prop} {E : Failure → Library → Prop}
    (htaken : ∀ e, lib.create name = .error e → E e lib)
    (hnew : ∀ op lib₁, lib.Reserves name op lib₁ →
      (do describe; let _ ← Site.perform .finish : Action Failure Site Unit).wp
        (fun _ s => (∀ e, s.library.commit s.operator = .error e → E e s.library) ∧
          ∀ h lib₂, s.library.Commits s.operator h lib₂ → Q h lib₂)
        (fun e s => E e s.library) ⟨lib₁, op⟩) :
    (build name describe).wp Q E lib := by
  unfold wp build
  cases hcreate : lib.create name with
  | error e => exact htaken e hcreate
  | ok new =>
      have hdone := hnew new.1 new.2 (reserves_of_create hcreate)
      unfold wp at hdone
      dsimp only at hdone ⊢
      generalize (do describe; let _ ← Site.perform .finish : Action Failure Site Unit)
        ⟨new.2, new.1⟩ = o at hdone ⊢
      cases hresult : o.result with
      | error e =>
          rw [hresult] at hdone
          exact hdone
      | ok _ =>
          rw [hresult] at hdone
          simp only [Except.bind]
          cases hcommit : o.state.library.commit o.state.operator with
          | error e => exact hdone.1 e hcommit
          | ok filled => exact hdone.2 filled.1 filled.2 (commits_of_commit hcommit)

theorem wp_obtain {Q : Handle → Library → Prop} {E : Failure → Library → Prop}
    (hreuse : ∀ h op, lib.find? name = some (h, op) → Q h lib)
    (hbuild : lib.find? name = none → (build name describe).wp Q E lib) :
    (obtain name describe).wp Q E lib := by
  unfold obtain
  rw [wp_bind, wp_get]
  split
  next h op hfound => exact hreuse h op hfound
  next hnone => exact hbuild hnone

/-! ## What builds keep -/

/-- The slots of `lib` stay when an operator whose slot is new is committed. -/
theorem Commits.extends_of_reserves {op op' : Operator} {lib₁ lib₂ lib₃ : Library} {h : Handle}
    (hres : lib.Reserves name op lib₁) (hext : lib₁.Extends lib₂) (hhandle : op'.handle = op.handle)
    (hcom : lib₂.Commits op' h lib₃) : lib.Extends lib₃ := by
  intro h' slot hslot
  have hlt := (Array.getElem?_eq_some_iff.mp hslot).1
  rw [hcom.getElem?, if_neg]
  · exact hext _ _ (hres.extends _ _ hslot)
  · rw [hhandle, hres.operator]
    exact (Nat.ne_of_lt hlt).symm

section Invariant

variable {R : Library → Prop} {Q : Library → Operator → Prop} {s s' s'' : Site}

theorem Leaves.refl (hR : R s.library) (hQ : Q s.library s.operator) : Leaves R Q s s :=
  ⟨.refl _, rfl, rfl, hR, hQ⟩

theorem Leaves.trans (h : Leaves R Q s s') (h' : Leaves R Q s' s'') : Leaves R Q s s'' where
  extend := h.extend.trans h'.extend
  handle := h'.handle.trans h.handle
  name := h'.name.trans h.name
  library := h'.library
  operator := h'.operator

/-- Building an operator by an action that keeps what reservations, the last call and commits
keep as well. -/
theorem wp_build_leaves
    (hreserve : ∀ {op lib'}, lib.Reserves name op lib' → R lib' ∧ Q lib' op)
    (hdescribe : ∀ s, R s.library → Q s.library s.operator →
      describe.wp (fun _ => Leaves R Q s) (fun _ => Leaves R Q s) s)
    (hfinish : ∀ s, R s.library → Q s.library s.operator →
      Leaves R Q s { s with operator := s.operator.step (s.library, .finish) })
    (hcommit : ∀ {lib op h lib'}, R lib → Q lib op → lib.Commits op h lib' → R lib') (hR : R lib) :
    (build name describe).wp (Built R lib name) (fun _ => Abandoned R lib name) lib := by
  refine Library.wp_build (fun _ _ => ⟨.refl lib, hR, .inl rfl⟩) fun op lib₁ hres => ?_
  obtain ⟨hR₁, hQ₁⟩ := hreserve hres
  -- while the operator is described its slot stays reserved
  have habandoned : ∀ s, Leaves R Q ⟨lib₁, op⟩ s → Abandoned R lib name s.library := by
    intro s hs
    refine ⟨hres.extends.trans hs.extend, hs.library, .inr ⟨lib.slots.size, ?_⟩⟩
    apply hs.extend
    rw [hres.slots]
    exact Array.getElem?_push_size
  rw [wp_bind]
  refine (hdescribe _ hR₁ hQ₁).mono (fun _ s hs => ?_) fun e s hs => habandoned s hs
  rw [wp_bind]
  have hfinished := hs.trans (hfinish s hs.library hs.operator)
  refine (wp_perform hfinished).mono (fun _ s' hs' => ?_) fun e s' hs' => habandoned s' hs'
  rw [wp_pure]
  refine ⟨fun e _ => habandoned s' hs', fun h lib₂ hcom => ?_⟩
  have hhandle : h = lib.slots.size := by rw [hcom.handle, hs'.handle, hres.operator]; rfl
  refine ⟨hcom.extends_of_reserves hres hs'.extend hs'.handle,
    hcommit hs'.library hs'.operator hcom, ?_, s'.operator, ?_, hcom.finished, ?_⟩
  · exact Array.getElem?_eq_none (Nat.le_of_eq hhandle.symm)
  · rw [hcom.operator?, if_pos hcom.handle.symm]
  · rw [hs'.name, hres.operator]
    rfl

/-- A library that an operator was obtained in is left as building it leaves it. -/
theorem wp_obtain_of_build
    (hbuild : (build name describe).wp (Built R lib name) (fun _ => Abandoned R lib name) lib)
    (hR : R lib) : (obtain name describe).wp (fun _ lib' => lib.Extends lib' ∧ R lib')
      (fun _ lib' => lib.Extends lib' ∧ R lib') lib :=
  Library.wp_obtain (fun _ _ _ => ⟨.refl lib, hR⟩) fun _ =>
    hbuild.mono (fun _ _ hbuilt => ⟨hbuilt.extend, hbuilt.library⟩)
      fun _ _ habandoned => ⟨habandoned.extend, habandoned.library⟩

variable (hinv : Invariant R Q)
include hinv

theorem Invariant.step_leaves (c : Call) (hR : R s.library) (hQ : Q s.library s.operator) :
    Leaves R Q s { s with operator := s.operator.step (s.library, c) } where
  extend := .refl _
  handle := (Operator.identity_step s.operator _).1
  name := (Operator.identity_step s.operator _).2
  library := hR
  operator := hinv.step c hR hQ

/-- Building an operator by an action that keeps the invariant. -/
theorem Invariant.wp_build
    (hdescribe : ∀ s, R s.library → Q s.library s.operator →
      describe.wp (fun _ => Leaves R Q s) (fun _ => Leaves R Q s) s) (hR : R lib) :
    (build name describe).wp (Built R lib name) (fun _ => Abandoned R lib name) lib :=
  wp_build_leaves (hinv.reserve hR) hdescribe (fun _ => hinv.step_leaves .finish) hinv.commit hR

/-- A library that an operator was obtained in. -/
theorem Invariant.wp_obtain (name : String)
    (hdescribe : ∀ s, R s.library → Q s.library s.operator →
      describe.wp (fun _ => Leaves R Q s) (fun _ => Leaves R Q s) s) (hR : R lib) :
    (obtain name describe).wp (fun _ lib' => lib.Extends lib' ∧ R lib')
      (fun _ lib' => lib.Extends lib' ∧ R lib') lib :=
  wp_obtain_of_build (hinv.wp_build hdescribe hR) hR

/-- Every build keeps the invariant, to its end or to where it stops. -/
theorem Builds.leaves {α : Type} {m : Action Failure Site α} (hm : Builds m) (s : Site)
    (hR : R s.library) (hQ : Q s.library s.operator) :
    m.wp (fun _ => Leaves R Q s) (fun _ => Leaves R Q s) s := by
  induction hm generalizing s with
  | pure a => exact .refl hR hQ
  | stop e => exact .refl hR hQ
  | report e => exact .refl hR hQ
  | look => exact .refl hR hQ
  | call c => exact wp_perform (hinv.step_leaves c hR hQ)
  | generate name hdescribe ih =>
      have hgenerated : ∀ lib', s.library.Extends lib' ∧ R lib' →
          Leaves R Q s { s with library := lib' } := fun lib' hlib' =>
        ⟨hlib'.1, rfl, rfl, hlib'.2, hinv.extend hQ hlib'.1⟩
      refine wp_zoom.mpr ((hinv.wp_obtain name ih hR).mono ?_ ?_)
      · exact fun _ lib' hlib' => hgenerated lib' hlib'
      · exact fun _ lib' hlib' => hgenerated lib' hlib'
  | bind hm hf ihm ihf =>
      refine wp_bind.mpr ((ihm s hR hQ).mono (fun a s' hs' => ?_) fun _ _ hs' => hs')
      exact (ihf a s' hs'.library hs'.operator).mono (fun _ _ => hs'.trans) fun _ _ => hs'.trans
  | attempt hm ih => exact wp_attempt.mpr (ih s hR hQ)

end Invariant

/-! ## Generation in a lawful library -/

/-- The laws of a library are kept. -/
theorem invariant_lawful : Invariant Lawful fun _ _ => True where
  reserve hlib hres := ⟨hres.lawful hlib, trivial⟩
  extend _ _ := trivial
  step _ _ _ := trivial
  commit hlib _ hcom := hcom.lawful hlib

/-- No operator was committed under a name for which there is none in `lib`. -/
theorem Abandoned.find?_eq_none {lib' : Library} (h : Abandoned Lawful lib name lib')
    (hnone : lib.find? name = none) : lib'.find? name = none := by
  rcases h.unfilled with rfl | ⟨place, hslot⟩
  · exact hnone
  · refine Library.find?_eq_none.mpr fun h' hlookup => ?_
    obtain ⟨slot, hslot', hname⟩ := h.library.lookup_iff.mp hlookup
    obtain rfl := h.library.eq_of_name hslot hslot' hname.symm
    unfold operator?
    rw [hslot]
    rfl

/-- What is known of the outcome of generating `name` in `lib`. -/
structure Generates (lib : Library) (name : String) (o : Outcome Failure Library Handle) :
    Prop where
  /-- Every slot stays as it was. -/
  extend : lib.Extends o.state
  lawful : o.state.Lawful
  /-- A committed operator of the name is reused. -/
  reused : ∀ {h op}, lib.find? name = some (h, op) → o.result = .ok h ∧ o.state = lib
  /-- Otherwise an answer is a new slot with a finished operator of the name. -/
  built : ∀ {h}, lib.find? name = none → o.result = .ok h →
    lib.slots[h]? = none ∧ ∃ op, o.state.operator? h = some op ∧ op.isFinished = true ∧
      op.name = name
  /-- After a failure there is no committed operator of the name. -/
  failed : ∀ {e}, o.result = .error e → o.state.find? name = none

theorem generates (hlib : lib.Lawful) (name : String) (hdescribe : Builds describe) :
    lib.Generates name (obtain name describe lib) := by
  cases hfound : lib.find? name with
  | some found =>
      obtain ⟨hresult, hstate⟩ : (obtain name describe lib).result = .ok found.1 ∧
          (obtain name describe lib).state = lib := by
        simp [obtain, bind, Action.bind, Action.get, hfound, Action.report, pure, Action.pure]
      refine ⟨?_, ?_, fun hreuse => ?_, fun hnone => ?_, fun herror => ?_⟩
      · rw [hstate]
        exact .refl lib
      · rw [hstate]
        exact hlib
      · obtain rfl := Option.some.inj (hfound.symm.trans hreuse)
        exact ⟨hresult, hstate⟩
      · rw [hfound] at hnone
        cases hnone
      · rw [hresult] at herror
        cases herror
  | none =>
      have hbuild : (build name describe).wp (Built Lawful lib name)
          (fun _ => Abandoned Lawful lib name) lib :=
        invariant_lawful.wp_build
          (fun s hs _ => hdescribe.leaves invariant_lawful s hs trivial) hlib
      have hobtain := wp_obtain (fun h op hreuse => by rw [hfound] at hreuse; cases hreuse)
        fun _ => hbuild
      have hreused : ∀ {h op}, lib.find? name = some (h, op) →
          (obtain name describe lib).result = .ok h ∧ (obtain name describe lib).state = lib := by
        simp [hfound]
      cases hresult : (obtain name describe lib).result with
      | ok h =>
          have hbuilt := hobtain.of_ok hresult
          refine ⟨hbuilt.extend, hbuilt.library, hreused, fun _ hanswer => ?_, fun herror => ?_⟩
          · obtain rfl := Except.ok.inj (hresult.symm.trans hanswer)
            exact ⟨hbuilt.fresh, hbuilt.committed⟩
          · rw [hresult] at herror
            cases herror
      | error e =>
          have habandoned := hobtain.of_error hresult
          refine ⟨habandoned.extend, habandoned.library, hreused, fun _ hanswer => ?_, fun _ => ?_⟩
          · rw [hresult] at hanswer
            cases hanswer
          · exact habandoned.find?_eq_none hfound

/-! ## Histories -/

/-- What is done to a library. An operator that is committed may come from anywhere. -/
inductive Act where
  | create (name : String)
  | commit (op : Operator)
  | generate (name : String) (describe : Action Failure Site Unit) (hdescribe : Builds describe)

/-- The library after an act that may fail. -/
def act (lib : Library) : Act → Library
  | .create name =>
    match lib.create name with
    | .ok (_, lib') => lib'
    | .error _ => lib
  | .commit op =>
    match lib.commit op with
    | .ok (_, lib') => lib'
    | .error _ => lib
  | .generate name describe _ => (obtain name describe lib).state

/-- The library after any number of acts. -/
def after (lib : Library) (acts : List Act) : Library :=
  acts.foldl act lib

theorem Lawful.act (hlib : lib.Lawful) (a : Act) :
    (lib.act a).Lawful ∧ lib.Persists (lib.act a) := by
  cases a with
  | create name =>
      dsimp only [Library.act]
      split
      next op lib' hcreate =>
        have hres := reserves_of_create hcreate
        exact ⟨hres.lawful hlib, hres.extends.persists⟩
      · exact ⟨hlib, .refl lib⟩
  | commit op =>
      dsimp only [Library.act]
      split
      next h lib' hcommit =>
        have hcom := commits_of_commit hcommit
        exact ⟨hcom.lawful hlib, hcom.persists⟩
      · exact ⟨hlib, .refl lib⟩
  | generate name describe hdescribe =>
      have hgenerates := generates hlib name hdescribe
      exact ⟨hgenerates.lawful, hgenerates.extend.persists⟩

theorem Lawful.after (hlib : lib.Lawful) (acts : List Act) :
    (lib.after acts).Lawful ∧ lib.Persists (lib.after acts) := by
  induction acts generalizing lib with
  | nil => exact ⟨hlib, .refl lib⟩
  | cons a acts ih =>
      obtain ⟨hlawful, hpersists⟩ := hlib.act a
      obtain ⟨hlawful', hpersists'⟩ := ih hlawful
      exact ⟨hlawful', hpersists.trans hpersists'⟩

end Library

end Retime
