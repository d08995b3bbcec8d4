import Retime.Proofs.Checked.Emission
import Retime.Proofs.Kind.Countable
import Retime.Proofs.Library.Latency

/-! # Checked builds

A build runs with every step checked if each of its calls does. Whatever is done in a workshop,
and whichever of it fails, the operators on the bench and in the library stay in range; so no
call, no build, no interface, no module and no chart ever needs an index that leads nowhere or
a cycle that cannot be counted.
-/

namespace Retime

open Retime.Action

namespace Action

variable {ε σ α : Type}

/-- Answers with the result of a checked action, be it an error; a slip still stops it. -/
def attemptChecked (m : Action (Halt ε) σ α) : Action (Halt ε) σ (Except ε α) := fun s =>
  let o := m s
  { result := match o.result with
      | .ok a => .ok (.ok a)
      | .error (.error e) => .ok (.error e)
      | .error (.slip slip) => .error (.slip slip)
    state := o.state
    events := o.events }

theorem Agrees.attempt {m : Action ε σ α} {m' : Action (Halt ε) σ α} {s : σ} (h : Agrees m' m s) :
    Agrees m'.attemptChecked m.attempt s := by
  unfold Agrees halting Action.mapError at *
  unfold attemptChecked Action.attempt
  rw [h]
  rcases m s with ⟨_ | a, t, events⟩ <;> rfl

end Action

namespace Checked

/-! ## Builds -/

/-- Performs a checked call on the operator. -/
def performAt (c : Call) : Action (Halt Failure) Site (Option String) := do
  let site ← Action.get
  (perform site.library c).zoom (·.operator) fun site operator => { site with operator }

def onLibrary {α : Type} (m : Action (Halt Failure) Library α) : Action (Halt Failure) Site α :=
  m.zoom (·.library) fun site library => { site with library }

/-- Builds a new operator by a checked action at its site, and commits it. -/
def build (name : String) (describe : Action (Halt Failure) Site Unit) :
    Action (Halt Failure) Library Handle := fun lib =>
  match lib.create name with
  | .error e => { result := .error (.error e), state := lib }
  | .ok (operator, library) =>
    let o := (do describe; let _ ← performAt .finish) { library, operator }
    match o.result.bind fun _ =>
        (o.state.library.commit o.state.operator).mapError .error with
    | .error e => { result := .error e, state := o.state.library, events := o.events }
    | .ok (h, library) => { result := .ok h, state := library, events := o.events }

def obtain (name : String) (describe : Action (Halt Failure) Site Unit) :
    Action (Halt Failure) Library Handle := do
  match (← Action.get).find? name with
  | some (h, _) =>
    Action.report (.reused name)
    return h
  | none => build name describe

/-- A build and the same build with every step checked. Its calls, and those of all that it
generates, ask for cycles that can be counted. -/
inductive Builds : {α : Type} →
    Action Failure Site α → Action (Halt Failure) Site α → Prop where
  | pure {α : Type} (a : α) : Builds (pure a) (pure a)
  | stop {α : Type} (e : Failure) :
      Builds (Action.stop e : Action Failure Site α) (Action.stop (.error e))
  | report (e : Event) : Builds (Action.report e) (Action.report e)
  | look : Builds Action.get Action.get
  | call {c : Call} (hc : c.Countable) : Builds (Site.perform c) (performAt c)
  | generate (name : String) {describe : Action Failure Site Unit}
      {describe' : Action (Halt Failure) Site Unit} (hdescribe : Builds describe describe') :
      Builds (Site.onLibrary (Library.obtain name describe)) (onLibrary (obtain name describe'))
  | bind {α β : Type} {m : Action Failure Site α} {m' : Action (Halt Failure) Site α}
      {f : α → Action Failure Site β} {f' : α → Action (Halt Failure) Site β}
      (hm : Builds m m') (hf : ∀ a, Builds (f a) (f' a)) : Builds (m >>= f) (m' >>= f')
  | attempt {α : Type} {m : Action Failure Site α} {m' : Action (Halt Failure) Site α}
      (hm : Builds m m') : Builds m.attempt m'.attemptChecked

/-- Runs a design at its site with every step checked. -/
def run : Design → Action (Halt Failure) Site Unit
  | .done => pure ()
  | .call c next => do
    let answer ← performAt c
    run (next answer)
  | .generate name body next => do
    let h ← onLibrary (obtain name (run body))
    run (next h)
  | .lookup name next => do
    let site ← Action.get
    run (next (site.library.lookup name))

/-- Generates the operator of a kind with every step checked. -/
def generate (kind : Kind) : Action (Halt Failure) Library Handle := do
  let lib ← Action.get
  obtain kind.name (run (kind.design lib.device))

end Checked

theorem Checked.builds_run {d : Design} (hd : d.Countable) : Builds (Library.run d) (run d) := by
  induction d with
  | done => exact .pure ()
  | call c next ih => exact .bind (.call hd.1) fun answer => ih answer (hd.2 answer)
  | generate name body next ihbody ih =>
      exact .bind (.generate name (ihbody hd.1)) fun h => ih h (hd.2 h)
  | lookup name next ih => exact .bind .look fun site => ih _ (hd _)

/-! ## Libraries in range -/

namespace Library

/-- All committed operators are linked and in range. -/
structure InRange (lib : Library) : Prop where
  founded : lib.Founded
  operator : ∀ {h op}, lib.operator? h = some op → op.InRange

/-- What is known of an operator that is built for a library. -/
structure Hosts (lib : Library) (op : Operator) : Prop where
  linked : op.Linked lib
  awaits : lib.Awaits op
  inRange : op.InRange

variable {lib lib' : Library} {name : String} {op : Operator} {h : Handle}

theorem Reserves.inRange (hres : lib.Reserves name op lib') (hlib : lib.InRange) :
    lib'.InRange ∧ lib'.Hosts op := by
  obtain ⟨hfounded, hlinked, hawaits⟩ := invariant_founded.reserve hlib.founded hres
  refine ⟨⟨hfounded, fun {h' op'} hop' => ?_⟩, hlinked, hawaits, ?_⟩
  · rw [hres.operator?] at hop'
    exact hlib.operator hop'
  · rw [hres.operator]
    exact Operator.inRange_blank _ _ _ _

theorem Commits.inRange (hcom : lib.Commits op h lib') (hlib : lib.InRange)
    (hlinked : op.Linked lib) (hop : op.InRange) : lib'.InRange where
  founded := hcom.founded hlib.founded hlinked
  operator hop' := by
    rw [hcom.operator?] at hop'
    split at hop'
    · exact Option.some.inj hop' ▸ hop
    · exact hlib.operator hop'

theorem Hosts.extend (hop : lib.Hosts op) (hext : lib.Extends lib') : lib'.Hosts op where
  linked := hop.linked.mono hext.persists
  awaits := hext.awaits hop.awaits
  inRange := hop.inRange

theorem Hosts.step_leaves {s : Site} {c : Call} (hc : c.Countable) (hlib : s.library.InRange)
    (hop : s.library.Hosts s.operator) :
    Leaves InRange Hosts s { s with operator := s.operator.step (s.library, c) } where
  extend := .refl _
  handle := (s.operator.identity_step _).1
  name := (s.operator.identity_step _).2
  library := hlib
  operator := ⟨hop.linked.step c, hop.awaits.step _, hop.inRange.step _ hc⟩

end Library

namespace Checked

open Library (Leaves Hosts Built Abandoned)

/-- Started in range, the checked build does the same, and both stay in range. -/
structure Safe {α : Type} (m : Action Failure Site α) (m' : Action (Halt Failure) Site α)
    (s : Site) : Prop where
  agrees : Agrees m' m s
  leaves : m.wp (fun _ => Leaves Library.InRange Hosts s)
    (fun _ => Leaves Library.InRange Hosts s) s

variable {lib : Library} {name : String} {describe : Action Failure Site Unit}
  {describe' : Action (Halt Failure) Site Unit}

theorem safe_call {c : Call} (hc : c.Countable) {s : Site} (hlib : s.library.InRange)
    (hop : s.library.Hosts s.operator) : Safe (Site.perform c) (performAt c) s where
  agrees := agrees_get (Agrees.zoom (agrees_perform hop.inRange hlib.operator c))
  leaves := Library.wp_perform (hop.step_leaves hc hlib)

theorem agrees_build
    (hdescribe : ∀ s : Site, s.library.InRange → s.library.Hosts s.operator →
      Safe describe describe' s) (hlib : lib.InRange) :
    Agrees (build name describe') (Library.build name describe) lib := by
  unfold Agrees halting Action.mapError build Library.build
  cases hcreate : lib.create name with
  | error e => rfl
  | ok new =>
      obtain ⟨hlib₁, hop₁⟩ := (Library.reserves_of_create hcreate).inRange hlib
      have hfirst := hdescribe ⟨new.2, new.1⟩ hlib₁ hop₁
      have hdone : Agrees (do describe'; let _ ← performAt .finish)
          (do describe; let _ ← Site.perform .finish) ⟨new.2, new.1⟩ := by
        refine hfirst.agrees.bind (hfirst.leaves.mono (fun _ s hs => ?_) fun _ _ _ => trivial)
        exact (safe_call (c := .finish) trivial hs.library hs.operator).agrees.andThen fun _ _ =>
          agrees_pure _ _
      unfold Agrees halting Action.mapError at hdone
      simp only [hdone]
      generalize (do describe; let _ ← Site.perform .finish : Action Failure Site Unit)
        ⟨new.2, new.1⟩ = o
      cases o.result with
      | error e => rfl
      | ok _ =>
          cases hcommit : o.state.library.commit o.state.operator <;> rfl

theorem wp_obtain (name : String)
    (hdescribe : ∀ s : Site, s.library.InRange → s.library.Hosts s.operator →
      Safe describe describe' s) (hlib : lib.InRange) :
    (Library.obtain name describe).wp (fun _ lib' => lib.Extends lib' ∧ lib'.InRange)
      (fun _ lib' => lib.Extends lib' ∧ lib'.InRange) lib := by
  refine Library.wp_obtain_of_build (Library.wp_build_leaves (Q := Hosts)
    (fun hres => hres.inRange hlib) (fun s hs hop => (hdescribe s hs hop).leaves)
    (fun s hs hop => hop.step_leaves trivial hs) ?_ hlib) hlib
  exact fun hlib hop hcom => hcom.inRange hlib hop.linked hop.inRange

theorem agrees_obtain
    (hdescribe : ∀ s : Site, s.library.InRange → s.library.Hosts s.operator →
      Safe describe describe' s) (hlib : lib.InRange) :
    Agrees (obtain name describe') (Library.obtain name describe) lib := by
  refine agrees_get ?_
  cases lib.find? name with
  | some found => exact Agrees.andThen (agrees_report _ _) fun _ _ => agrees_pure _ _
  | none => exact agrees_build hdescribe hlib

/-- Every build is safe, to its end or to where it stops. -/
theorem Builds.safe {α : Type} {m : Action Failure Site α} {m' : Action (Halt Failure) Site α}
    (h : Builds m m') (s : Site) (hlib : s.library.InRange) (hop : s.library.Hosts s.operator) :
    Safe m m' s := by
  induction h generalizing s with
  | pure a => exact ⟨agrees_pure a s, .refl hlib hop⟩
  | stop e => exact ⟨agrees_stop e s, .refl hlib hop⟩
  | report e => exact ⟨agrees_report e s, .refl hlib hop⟩
  | look => exact ⟨rfl, .refl hlib hop⟩
  | call hc => exact safe_call hc hlib hop
  | generate name hdescribe ih =>
      refine ⟨Agrees.zoom (agrees_obtain ih hlib), wp_zoom.mpr ?_⟩
      have hgenerated : ∀ lib', s.library.Extends lib' ∧ lib'.InRange →
          Leaves Library.InRange Hosts s { s with library := lib' } := fun lib' hlib' =>
        ⟨hlib'.1, rfl, rfl, hlib'.2, hop.extend hlib'.1⟩
      exact (wp_obtain name ih hlib).mono (fun _ => hgenerated) fun _ => hgenerated
  | bind hm hf ihm ihf =>
      have hfirst := ihm s hlib hop
      refine ⟨hfirst.agrees.bind (hfirst.leaves.mono (fun a t ht => ?_) fun _ _ _ => trivial),
        wp_bind.mpr (hfirst.leaves.mono (fun a t ht => ?_) fun _ _ ht => ht)⟩
      · exact (ihf a t ht.library ht.operator).agrees
      · exact (ihf a t ht.library ht.operator).leaves.mono (fun _ _ => ht.trans) fun _ _ => ht.trans
  | attempt hm ih =>
      have hsafe := ih s hlib hop
      exact ⟨hsafe.agrees.attempt, wp_attempt.mpr hsafe.leaves⟩

end Checked

/-- With every step checked, an operator of the library answers to calls and shows itself in
the same way. -/
structure Checked.Faithful (lib : Library) (op : Operator) : Prop where
  perform : ∀ c, Agrees (Checked.perform lib c) (Operator.perform lib c) op
  lookup : ∀ name, Checked.lookup op.flow.netlist name =
    (op.flow.netlist.find name).mapError .error
  chain : ∀ root cycle, Checked.chain? op.flow root cycle = .ok (op.flow.chain? root cycle)
  interface : Checked.interface? op = .ok op.interface?
  toModule : Checked.toModule op = op.toModule.mapError .error
  chartSection : ∀ schedule, op.schedule = some schedule →
    Checked.chartSection op schedule = .ok (op.chartSection schedule)

/-! ## Workshops in range -/

namespace Workshop

/-- A step whose calls ask for cycles that can be counted. -/
def Step.Countable : Step → Prop
  | .call _ c => c.Countable
  | .generate _ describe _ => ∃ describe', Checked.Builds describe describe'
  | _ => True

structure InRange (w : Workshop) : Prop where
  sound : w.Sound
  operator : ∀ {op}, w.Holds op → op.InRange

variable {w : Workshop}

theorem inRange_empty (settings : Settings) (device : Device) :
    (empty settings device).InRange where
  sound := sound_empty settings device
  operator hop := by simp [Holds, empty, Library.operator?] at hop

theorem InRange.library (hw : w.InRange) : w.library.InRange where
  founded := hw.sound.library
  operator hop := hw.operator (.inr ⟨_, hop⟩)

theorem InRange.hosts (hw : w.InRange) {op : Operator} (hop : op ∈ w.bench) :
    w.library.Hosts op where
  linked := hw.sound.linked op hop
  awaits := hw.sound.awaits op hop
  inRange := hw.operator (.inl hop)

/-- Whatever a step does, and whether it succeeds or fails, everything stays in range. -/
theorem InRange.step (hw : w.InRange) {s : Step} (hs : s.Countable) : (w.step s).InRange := by
  refine ⟨hw.sound.step s, fun {op} hop => ?_⟩
  cases s with
  | create name =>
      unfold Workshop.step at hop
      dsimp only at hop
      cases hcreate : w.library.create name with
      | error e =>
          rw [hcreate] at hop
          exact hw.operator hop
      | ok new =>
          rw [hcreate] at hop
          obtain ⟨hlibrary, hnew⟩ := (Library.reserves_of_create hcreate).inRange hw.library
          rcases hop with hbench | ⟨h, hop⟩
          · rcases List.mem_append.mp hbench with hop | hop
            · exact hw.operator (.inl hop)
            · exact List.mem_singleton.mp hop ▸ hnew.inRange
          · exact hlibrary.operator hop
  | call place c =>
      rcases hop with hbench | ⟨h, hop⟩
      · obtain ⟨i, hi⟩ := List.mem_iff_getElem?.mp hbench
        rw [Workshop.step, List.getElem?_modify] at hi
        obtain ⟨before, hbefore, hsame⟩ := Option.map_eq_some_iff.mp hi
        have hrange := hw.operator (.inl (List.mem_of_getElem? hbefore))
        split at hsame
        · exact hsame ▸ hrange.step w.library hs
        · exact hsame ▸ hrange
      · exact hw.library.operator hop
  | commit place =>
      unfold Workshop.step at hop
      dsimp only at hop
      split at hop
      next built hplace =>
        rcases hop with hbench | ⟨h, hop⟩
        · exact hw.operator (.inl (List.mem_of_mem_eraseIdx hbench))
        · have hbuilt := hw.hosts (List.mem_of_getElem? hplace)
          split at hop
          next filled hcommit =>
            have hcom := Library.commits_of_commit hcommit
            exact (hcom.inRange hw.library hbuilt.linked hbuilt.inRange).operator hop
          · exact hw.library.operator hop
      · exact hw.operator hop
  | discard place =>
      rcases hop with hbench | hop
      · exact hw.operator (.inl (List.mem_of_mem_eraseIdx hbench))
      · exact hw.operator (.inr hop)
  | generate name describe hdescribe =>
      obtain ⟨describe', hbuilds⟩ := hs
      have hlibrary :=
        (Checked.wp_obtain name (fun s hs hop => hbuilds.safe s hs hop) hw.library).state
      rcases hop with hbench | ⟨h, hop⟩
      · exact hw.operator (.inl hbench)
      · exact hlibrary.2.operator hop

theorem InRange.after (hw : w.InRange) {steps : List Step} (hsteps : ∀ s ∈ steps, s.Countable) :
    (w.after steps).InRange := by
  induction steps generalizing w with
  | nil => exact hw
  | cons s steps ih =>
      obtain ⟨hs, hsteps⟩ := List.forall_mem_cons.mp hsteps
      exact ih (hw.step hs) hsteps

theorem InRange.agrees_obtain (hw : w.InRange) (name : String)
    {describe : Action Failure Site Unit} {describe' : Action (Halt Failure) Site Unit}
    (hbuilds : Checked.Builds describe describe') :
    Agrees (Checked.obtain name describe') (Library.obtain name describe) w.library :=
  Checked.agrees_obtain (fun s hs hop => hbuilds.safe s hs hop) hw.library

/-- Kinds are generated in the same way, if their designs are countable. -/
theorem InRange.agrees_generate (hw : w.InRange) {kind : Kind}
    (hkind : (kind.design w.library.device).Countable) :
    Agrees (Checked.generate kind) (Library.generate kind) w.library :=
  agrees_get (hw.agrees_obtain kind.name (Checked.builds_run hkind))

theorem InRange.faithful (hw : w.InRange) {op : Operator} (hop : w.Holds op) :
    Checked.Faithful w.library op where
  perform c := Checked.agrees_perform (hw.operator hop) hw.library.operator c
  lookup name := Checked.lookup_eq (hw.operator hop).sound.flow.lawful name
  chain root cycle := Checked.chain?_eq (hw.operator hop).sound.flow root cycle
  interface := Checked.interface?_eq (hw.operator hop)
  toModule := Checked.toModule_eq (hw.sound.linked_of_holds hop) (hw.operator hop)
  chartSection _ hschedule := Checked.chartSection_eq (hw.sound.linked_of_holds hop) hschedule

/-- Nothing that is done in a workshop, in any order and whichever of it fails, leads to an index
without an entry or to a cycle that cannot be counted. All cycles that are recorded can be
counted; every further call, every build, every built-in kind and everything that is shown of an
operator or of the library is the same with every step checked. -/
theorem no_step_slips (settings : Settings) (device : Device) {steps : List Step}
    (hsteps : ∀ s ∈ steps, s.Countable) :
    let w := (empty settings device).after steps
    (∀ op, w.Holds op → op.Counted ∧ Checked.Faithful w.library op ∧
        ∀ c slip, (Checked.perform w.library c op).result ≠ .error (.slip slip)) ∧
      Checked.chart w.library = .ok w.library.chart ∧
      (∀ name describe describe', Checked.Builds describe describe' →
        Agrees (Checked.obtain name describe') (Library.obtain name describe) w.library) ∧
      ∀ (f : Family) (sizes : Sizes),
        Agrees (Checked.generate (f.kind sizes)) (Library.generate (f.kind sizes)) w.library := by
  intro w
  have hw : w.InRange := (inRange_empty settings device).after hsteps
  refine ⟨fun op hop => ?_, ?_, ?_, ?_⟩
  · have hfaithful := hw.faithful hop
    exact ⟨(hw.operator hop).counted, hfaithful, fun c => (hfaithful.perform c).ne_slip⟩
  · exact Checked.chart_eq fun hop => hw.sound.library.linked hop
  · intro name describe describe' hbuilds
    exact hw.agrees_obtain name hbuilds
  · intro f sizes
    exact hw.agrees_generate (f.countable_design sizes w.library.device)

/-- In the last cycle the checked engine fails to advance as the engine does, with an error. -/
theorem last_cycle_is_checked :
    let settings : Settings := {}
    let steps : List Step := .create "late" :: [Call.setCycle maxCycle].map (.call 0)
    let w := (empty settings (.ofSettings settings)).after steps
    (∀ s ∈ steps, s.Countable) ∧ ∃ op, w.Holds op ∧ op.timeline.cycle = maxCycle ∧ op.Counted ∧
      Checked.Faithful w.library op ∧ (Checked.perform w.library .advance op).result =
        .error (.error ⟨"late", "advance_cycle()", .cycleOverflow maxCycle 1⟩) := by
  intro settings steps w
  have hsteps : ∀ s ∈ steps, s.Countable := by
    simp [steps, Step.Countable, Call.Countable]
  obtain ⟨lib, -, hcreate⟩ := after_create { settings, device := .ofSettings settings } "late"
    (by simp [Library.lookup]) ([Call.setCycle maxCycle].map (.call 0))
  let device : Device := .ofSettings settings
  let op := (Operator.blank 0 "late" device.period device.pipelined).after
    ([Call.setCycle maxCycle].map (lib, ·))
  have hw : w = ⟨lib, [op]⟩ := hcreate.trans (after_calls _ _ _)
  obtain ⟨hheld, -⟩ := no_step_slips settings device hsteps
  have hop : w.Holds op := .inl (by rw [hw]; exact List.mem_singleton_self op)
  obtain ⟨hcounted, hfaithful, -⟩ := hheld op hop
  have hcycle : op.timeline.cycle = maxCycle := Timeline.cycle_enter maxCycle
  refine ⟨hsteps, op, hop, hcycle, hcounted, hfaithful, ?_⟩
  have hopen : op.isFinished = false := rfl
  have hlater : op.timeline.advance = .error (.cycleOverflow maxCycle 1) := by
    simp [Timeline.advance, laterCycle, hcycle, Except.map]
  have hname : op.name = "late" := (Operator.identity_after _ _).2
  have hfails : (Operator.execute w.library .advance op).result =
      .error (.cycleOverflow maxCycle 1) := by
    simp only [Operator.execute, Operator.onTimeline, bind, Action.bind, Action.get,
      Action.ofExcept, hlater]
  rw [(hfaithful.perform .advance).result, (Operator.perform_of_open hopen).1, hfails, hname]
  rfl

end Workshop

end Retime
