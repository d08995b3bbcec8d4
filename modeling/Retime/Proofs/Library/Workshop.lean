import Retime.Proofs.Library.Builds
import Retime.Proofs.Operator.Linked

/-! # Workshops

In a workshop operators are created, called, committed and generated in one library, in any
order, and any of this may fail. Operators that are not committed yet lie on the bench. An
instance is made of an operator that is committed already, so what is committed later has a
higher rank than all it has instances of, and no operator contains itself.
-/

namespace Retime

/-! ## Founded libraries -/

namespace Library

/-- The committed operators are linked, and none of them contains itself. -/
structure Founded (lib : Library) : Prop extends Lawful lib where
  linked : ∀ {h op}, lib.operator? h = some op → op.Linked lib
  ranked : ∃ rank : Handle → Nat, ∀ h op, lib.operator? h = some op →
    ∀ inst ∈ op.instances, rank inst.sub < rank h

variable {lib lib' : Library} {name : String} {op : Operator} {h : Handle}

theorem founded_empty (settings : Settings) (device : Device) :
    ({ settings, device } : Library).Founded where
  toLawful := lawful_empty settings device
  linked hop := by simp [operator?] at hop
  ranked := ⟨fun _ => 0, fun h op hop => by simp [operator?] at hop⟩

theorem Reserves.founded (hres : lib.Reserves name op lib') (hlib : lib.Founded) :
    lib'.Founded where
  toLawful := hres.lawful hlib.toLawful
  linked hop := by
    rw [hres.operator?] at hop
    exact (hlib.linked hop).mono hres.extends.persists
  ranked := by
    obtain ⟨rank, hrank⟩ := hlib.ranked
    refine ⟨rank, fun h op hop => hrank h op ?_⟩
    rw [← hres.operator?]
    exact hop

theorem Commits.founded (hcom : lib.Commits op h lib') (hlib : lib.Founded)
    (hop : op.Linked lib) : lib'.Founded where
  toLawful := hcom.lawful hlib.toLawful
  linked {h' op'} hop' := by
    rw [hcom.operator?] at hop'
    split at hop'
    · cases hop'
      exact hop.mono hcom.persists
    · exact (hlib.linked hop').mono hcom.persists
  ranked := by
    obtain ⟨rank, hrank⟩ := hlib.ranked
    -- the new operator is above all it has instances of, none of which is itself
    let top := (op.instances.toList.map fun inst => rank inst.sub).foldl max 0 + 1
    have hsub : ∀ {op' : Operator}, op'.Linked lib → ∀ inst ∈ op'.instances, inst.sub ≠ op.handle := by
      intro op' hop' inst hinst hself
      obtain ⟨sub, hsub, -⟩ := hop'.committed hinst
      rw [hself, operator?_of_awaits hcom.awaits] at hsub
      cases hsub
    refine ⟨fun h' => if h' = op.handle then top else rank h', fun h' op' hop' inst hinst => ?_⟩
    rw [hcom.operator?] at hop'
    split at hop'
    next hself =>
      cases hop'
      dsimp only
      rw [if_neg (hsub hop inst hinst), if_pos hself.symm]
      apply Nat.lt_succ_of_le
      apply (Operator.le_foldl_max _ 0).2
      exact List.mem_map_of_mem (Array.mem_toList_iff.mpr hinst)
    next hother =>
      dsimp only
      rw [if_neg (hsub (hlib.linked hop') inst hinst), if_neg (Ne.symm hother)]
      exact hrank h' op' hop' inst hinst

/-- An operator whose place awaits it after each call. -/
theorem Awaits.step (hawaits : lib.Awaits op) (entry : Library × Call) :
    lib.Awaits (op.step entry) := by
  obtain ⟨hhandle, hname⟩ := op.identity_step entry
  rw [Awaits, hhandle, hname]
  exact hawaits

theorem invariant_founded : Invariant Founded fun lib op => op.Linked lib ∧ lib.Awaits op where
  reserve hlib hres := by
    refine ⟨hres.founded hlib, ?_, hres.awaits⟩
    rw [hres.operator]
    exact Operator.linked_blank _ _ _ _ _
  extend hop hext := ⟨hop.1.mono hext.persists, hext.awaits hop.2⟩
  step c _ hop := ⟨hop.1.step c, hop.2.step _⟩
  commit hlib hop hcom := hcom.founded hlib hop.1

end Library

/-! ## Steps -/

/-- A library and the operators that are being built for it. -/
structure Workshop where
  library : Library
  bench : List Operator := []

namespace Workshop

/-- What is done at a workshop. Operators on the bench are given by their places there; to
commit one takes it from the bench, whether it is accepted or not. A generation whose build
also creates and commits operators of its own is a run of the other steps. -/
inductive Step where
  | create (name : String)
  | call (place : Nat) (c : Call)
  | commit (place : Nat)
  | discard (place : Nat)
  | generate (name : String) (describe : Action Failure Site Unit)
      (hdescribe : Library.Builds describe)

/-- The workshop after a step that may fail. -/
def step (w : Workshop) : Step → Workshop
  | .create name =>
    match w.library.create name with
    | .ok (op, library) => { library, bench := w.bench ++ [op] }
    | .error _ => w
  | .call place c => { w with bench := w.bench.modify place (·.step (w.library, c)) }
  | .commit place =>
    match w.bench[place]? with
    | some op =>
      { library := match w.library.commit op with
          | .ok (_, library) => library
          | .error _ => w.library
        bench := w.bench.eraseIdx place }
    | none => w
  | .discard place => { w with bench := w.bench.eraseIdx place }
  | .generate name describe _ =>
    { w with library := (Library.obtain name describe w.library).state }

/-- The workshop after any number of steps. -/
def after (w : Workshop) (steps : List Step) : Workshop :=
  steps.foldl step w

/-- A workshop in which nothing was done yet. -/
def empty (settings : Settings) (device : Device) : Workshop where
  library := { settings, device }

/-- An operator of the workshop is on the bench or committed. -/
def Holds (w : Workshop) (op : Operator) : Prop :=
  op ∈ w.bench ∨ ∃ h, w.library.operator? h = some op

/-- The library is founded, and each operator on the bench is linked and has a slot of its
own that awaits it. -/
structure Sound (w : Workshop) : Prop where
  library : w.library.Founded
  linked : ∀ op ∈ w.bench, op.Linked w.library
  awaits : ∀ op ∈ w.bench, w.library.Awaits op
  handles : (w.bench.map (·.handle)).Nodup

variable {w : Workshop}

theorem sound_empty (settings : Settings) (device : Device) : (empty settings device).Sound where
  library := Library.founded_empty settings device
  linked _ hop := by cases hop
  awaits _ hop := by cases hop
  handles := .nil

theorem Sound.linked_of_holds (hw : w.Sound) {op : Operator} (hop : w.Holds op) :
    op.Linked w.library :=
  hop.elim (hw.linked op) fun ⟨_, hop⟩ => hw.library.linked hop

theorem Sound.create (hw : w.Sound) (name : String) : (w.step (.create name)).Sound := by
  unfold Workshop.step
  dsimp only
  cases hcreate : w.library.create name with
  | error e => exact hw
  | ok new =>
      have hres := Library.reserves_of_create hcreate
      have hnew := Library.invariant_founded.reserve hw.library hres
      refine ⟨hnew.1, fun op hop => ?_, fun op hop => ?_, ?_⟩
      · rcases List.mem_append.mp hop with hop | hop
        · exact (hw.linked op hop).mono hres.extends.persists
        · obtain rfl := List.mem_singleton.mp hop
          exact hnew.2.1
      · rcases List.mem_append.mp hop with hop | hop
        · exact hres.extends.awaits (hw.awaits op hop)
        · obtain rfl := List.mem_singleton.mp hop
          exact hnew.2.2
      · -- the slots of the others were there before
        rw [List.map_append]
        refine hw.handles.append (by simp) fun h hold hlast => ?_
        obtain ⟨op, hop, rfl⟩ := List.mem_map.mp hold
        have hlt := (Array.getElem?_eq_some_iff.mp (hw.awaits op hop)).1
        have hsize : op.handle = w.library.slots.size := by
          simpa [hres.operator, Operator.blank] using hlast
        exact Nat.ne_of_lt hlt hsize

theorem Sound.call (hw : w.Sound) (place : Nat) (c : Call) : (w.step (.call place c)).Sound := by
  have hmem : ∀ op ∈ (w.step (.call place c)).bench,
      op ∈ w.bench ∨ ∃ before ∈ w.bench, op = before.step (w.library, c) := by
    intro op hop
    obtain ⟨i, hi⟩ := List.mem_iff_getElem?.mp hop
    rw [Workshop.step, List.getElem?_modify] at hi
    obtain ⟨before, hbefore, hsame⟩ := Option.map_eq_some_iff.mp hi
    have hin := List.mem_of_getElem? hbefore
    split at hsame
    · exact .inr ⟨before, hin, hsame.symm⟩
    · exact .inl (hsame ▸ hin)
  refine ⟨hw.library, fun op hop => ?_, fun op hop => ?_, ?_⟩
  · rcases hmem op hop with hop | ⟨before, hbefore, rfl⟩
    · exact hw.linked op hop
    · exact (hw.linked before hbefore).step c
  · rcases hmem op hop with hop | ⟨before, hbefore, rfl⟩
    · exact hw.awaits op hop
    · exact (hw.awaits before hbefore).step _
  · have hsame : (w.step (.call place c)).bench.map (·.handle) = w.bench.map (·.handle) := by
      apply List.ext_getElem?
      intro i
      rw [Workshop.step, List.getElem?_map, List.getElem?_map, List.getElem?_modify]
      cases w.bench[i]? with
      | none => rfl
      | some op =>
          by_cases hplace : place = i
          · simpa [hplace] using (op.identity_step (w.library, c)).1
          · simp [hplace]
    rw [hsame]
    exact hw.handles

theorem Sound.discard (hw : w.Sound) (place : Nat) : (w.step (.discard place)).Sound where
  library := hw.library
  linked op hop := hw.linked op (List.mem_of_mem_eraseIdx hop)
  awaits op hop := hw.awaits op (List.mem_of_mem_eraseIdx hop)
  handles := hw.handles.sublist ((List.eraseIdx_sublist _ _).map _)

theorem Sound.commit (hw : w.Sound) (place : Nat) : (w.step (.commit place)).Sound := by
  unfold Workshop.step
  dsimp only
  split
  next op hplace =>
    have hop := List.mem_of_getElem? hplace
    cases hcommit : w.library.commit op with
    | error e => exact hw.discard place
    | ok filled =>
        have hcom := Library.commits_of_commit hcommit
        refine ⟨hcom.founded hw.library (hw.linked op hop), fun op' hop' => ?_, fun op' hop' => ?_,
          (hw.discard place).handles⟩
        · exact ((hw.discard place).linked op' hop').mono hcom.persists
        · refine hcom.awaits_of_ne ?_ ((hw.discard place).awaits op' hop')
          obtain ⟨i, hi, hop'⟩ := List.mem_eraseIdx_iff_getElem?.mp hop'
          intro hsame
          have hlt : i < (w.bench.map (·.handle)).length := by
            rw [List.length_map]
            exact (List.getElem?_eq_some_iff.mp hop').1
          refine hi ((List.getElem?_inj hlt hw.handles).mp ?_)
          rw [List.getElem?_map, List.getElem?_map, hop', hplace, Option.map_some,
            Option.map_some, hsame]
  · exact hw

theorem Sound.generate (hw : w.Sound) (name : String) {describe : Action Failure Site Unit}
    (hdescribe : Library.Builds describe) : (w.step (.generate name describe hdescribe)).Sound := by
  obtain ⟨hext, hfounded⟩ := (Library.invariant_founded.wp_obtain name
    (fun s hs hop => hdescribe.leaves Library.invariant_founded s hs hop) hw.library).state
  exact ⟨hfounded, fun op hop => (hw.linked op hop).mono hext.persists,
    fun op hop => hext.awaits (hw.awaits op hop), hw.handles⟩

theorem Sound.step (hw : w.Sound) (s : Step) : (w.step s).Sound := by
  cases s with
  | create name => exact hw.create name
  | call place c => exact hw.call place c
  | commit place => exact hw.commit place
  | discard place => exact hw.discard place
  | generate name describe hdescribe => exact hw.generate name hdescribe

theorem Sound.after (hw : w.Sound) (steps : List Step) : (w.after steps).Sound := by
  induction steps generalizing w with
  | nil => exact hw
  | cons s steps ih => exact ih (hw.step s)

/-- Whatever is done in a workshop, it stays sound. -/
theorem sound_after_empty (settings : Settings) (device : Device) (steps : List Step) :
    ((empty settings device).after steps).Sound :=
  (sound_empty settings device).after steps

/-! ## What workshops keep -/

/-- What is kept of the library and of each operator on the bench by itself. -/
theorem invariant_after {R : Library → Prop} {Q : Operator → Prop}
    (hinv : Library.Invariant R fun _ => Q) (hlibrary : R w.library) (hbench : ∀ op ∈ w.bench, Q op)
    (steps : List Step) :
    R (w.after steps).library ∧ ∀ op ∈ (w.after steps).bench, Q op := by
  suffices hstep : ∀ (w : Workshop) (s : Step), R w.library → (∀ op ∈ w.bench, Q op) →
      R (w.step s).library ∧ ∀ op ∈ (w.step s).bench, Q op by
    induction steps generalizing w with
    | nil => exact ⟨hlibrary, hbench⟩
    | cons s steps ih => exact ih (hstep w s hlibrary hbench).1 (hstep w s hlibrary hbench).2
  intro w s hlibrary hbench
  cases s with
  | create name =>
      unfold Workshop.step
      dsimp only
      cases hcreate : w.library.create name with
      | error e => exact ⟨hlibrary, hbench⟩
      | ok new =>
          obtain ⟨hR, hQ⟩ := hinv.reserve hlibrary (Library.reserves_of_create hcreate)
          refine ⟨hR, fun op hop => ?_⟩
          rcases List.mem_append.mp hop with hop | hop
          · exact hbench op hop
          · exact List.mem_singleton.mp hop ▸ hQ
  | call place c =>
      refine ⟨hlibrary, fun op hop => ?_⟩
      obtain ⟨i, hi⟩ := List.mem_iff_getElem?.mp hop
      rw [Workshop.step, List.getElem?_modify] at hi
      obtain ⟨before, hbefore, hsame⟩ := Option.map_eq_some_iff.mp hi
      have hQ := hbench before (List.mem_of_getElem? hbefore)
      split at hsame
      · exact hsame ▸ hinv.step c hlibrary hQ
      · exact hsame ▸ hQ
  | commit place =>
      unfold Workshop.step
      dsimp only
      split
      next op hplace =>
        refine ⟨?_, fun op' hop' => hbench op' (List.mem_of_mem_eraseIdx hop')⟩
        cases hcommit : w.library.commit op with
        | error e => exact hlibrary
        | ok filled =>
            have hQ := hbench op (List.mem_of_getElem? hplace)
            exact hinv.commit hlibrary hQ (Library.commits_of_commit hcommit)
      · exact ⟨hlibrary, hbench⟩
  | discard place => exact ⟨hlibrary, fun op hop => hbench op (List.mem_of_mem_eraseIdx hop)⟩
  | generate name describe hdescribe =>
      refine ⟨?_, hbench⟩
      exact ((hinv.wp_obtain name (fun s hs hop => hdescribe.leaves hinv s hs hop)
        hlibrary).mono (fun _ _ h => h.2) fun _ _ h => h.2).state

end Workshop

end Retime
