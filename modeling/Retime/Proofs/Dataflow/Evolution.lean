import Retime.Proofs.Dataflow.Resolve

/-! # The evolution of a dataflow

A dataflow changes in three ways only: a signal is declared that is no stage, a line
without stages gets a stem, or a request is made. The lines that come out of this are
sound. If no request failed they are determined by the set of requests alone, whatever
their order.
-/

namespace Retime.Dataflow

open Retime.Action

/-- The request for a signal in a cycle, in the state in which it is made. -/
structure Request where
  flow : Dataflow
  signal : Signal
  cycle : Nat

namespace Request

/-- The outcome of the request. -/
def outcome (q : Request) : Outcome Fault Dataflow SignalId :=
  resolve q.signal q.cycle q.flow

def Fails (q : Request) : Prop :=
  ∃ e, q.outcome.result = .error e

/-- The signal whose delay line is asked. -/
def root (q : Request) : Signal :=
  q.flow.netlist.root q.signal

/-- How many cycles after its root the value is asked for. -/
def gap (q : Request) : Nat :=
  q.cycle - q.root.cycle

end Request

/-- `d.Evolves qs d'`: from `d`, making the requests `qs` in this order and declaring signals
in between leads to `d'`. -/
inductive Evolves (d : Dataflow) : List Request → Dataflow → Prop where
  | refl : Evolves d [] d
  | declare {qs : List Request} {d' : Dataflow} (before : Evolves d qs d') (decl : Declaration)
      (hfree : d'.netlist.contains decl.name = false)
      (hdriver : ∀ r depth, decl.driver ≠ .stage r depth) :
      Evolves d qs { d' with netlist := d'.netlist.add decl }
  | stem {qs : List Request} {d' : Dataflow} (before : Evolves d qs d') (r : SignalId)
      (stem : String) (hempty : d'.stages r = #[]) : Evolves d qs (d'.setStem r stem)
  | request {qs : List Request} {d' : Dataflow} (before : Evolves d qs d') (s : Signal)
      (cycle : Nat) (hs : d'.netlist.signal? s.id = some s) (hrole : s.role ≠ .output) :
      Evolves d (qs ++ [⟨d', s, cycle⟩]) (resolve s cycle d').state

variable {d d' d'' : Dataflow} {qs qs' : List Request}

theorem Evolves.trans (h : d.Evolves qs d') (h' : d'.Evolves qs' d'') :
    d.Evolves (qs ++ qs') d'' := by
  induction h' with
  | refl => simpa using h
  | declare _ decl hfree hdriver ih => exact ih.declare decl hfree hdriver
  | stem _ r stem hempty ih => exact ih.stem r stem hempty
  | request _ s cycle hs hrole ih =>
      rw [← List.append_assoc]
      exact ih.request s cycle hs hrole

/-! ## What every evolution keeps -/

theorem extends_setStem (r : SignalId) (stem : String) : d.Extends (d.setStem r stem) where
  netlist := .refl _
  stages hk := (stages_setStem r _ stem).symm ▸ hk

theorem attempted_resolve {s : Signal} (h : d.Sound) (hs : d.netlist.signal? s.id = some s)
    (hrole : s.role ≠ .output) (cycle : Nat) : Attempted s d (resolve s cycle d).state := by
  refine wp.state ((wp_resolve h hs hrole cycle).mono (fun _ d' hd' => ?_) fun _ d' hd' => hd')
  exact ⟨hd'.sound, hd'.lengthens⟩

theorem Evolves.sound (h : d.Evolves qs d') (hd : d.Sound) : d'.Sound := by
  induction h with
  | refl => exact hd
  | declare _ decl hfree hdriver ih => exact ih.declare hfree hdriver
  | stem _ r stem hempty ih => exact ih.setStem hempty stem
  | request _ s cycle hs hrole ih => exact (attempted_resolve ih hs hrole cycle).sound

theorem Evolves.extends (h : d.Evolves qs d') (hd : d.Sound) : d.Extends d' := by
  induction h with
  | refl => exact .refl d
  | declare _ decl _ _ ih => exact ih.trans (extends_declare decl)
  | stem _ r stem _ ih => exact ih.trans (extends_setStem r stem)
  | request before s cycle hs hrole ih =>
      exact ih.trans (attempted_resolve (before.sound hd) hs hrole cycle).lengthens.toExtends

/-! ## Requests that do not fail -/

/-- The lines hold what the requests need, and no more. -/
structure Served (qs : List Request) (d : Dataflow) : Prop where
  root : ∀ q ∈ qs, d.netlist.signal? q.root.id = some q.root
  answered : ∀ q ∈ qs, ∃ id, q.outcome.result = .ok id ∧ d.Carries q.root q.cycle id
  short : ∀ r, d.stages r = #[] ∨ ∃ q ∈ qs, q.root.id = r ∧ (d.stages r).size = q.gap
  mem_answers : ∀ {r c}, c ∈ (d.line r).answers ↔
    ∃ q ∈ qs, q.root.id = r ∧ q.cycle = c ∧ q.signal.cycle < c

theorem served_empty : Served [] {} where
  root q hq := by cases hq
  answered q hq := by cases hq
  short r := .inl (by simp [stages, line])
  mem_answers := by simp [line]

/-- Requests stay served while signals are added and no line changes. -/
theorem Served.mono (h : Served qs d) (hext : d.Extends d')
    (hstages : ∀ r, d'.stages r = d.stages r)
    (hanswers : ∀ r, (d'.line r).answers = (d.line r).answers) : Served qs d' where
  root q hq := hext.netlist _ _ (h.root q hq)
  answered q hq := by
    obtain ⟨id, hid, hcarries⟩ := h.answered q hq
    exact ⟨id, hid, hcarries.mono hext⟩
  short r := hstages r ▸ h.short r
  mem_answers {r c} := hanswers r ▸ h.mem_answers

/-- One more request is served by its outcome. -/
theorem Served.request (h : Served qs d) {q : Request} (hflow : q.flow = d)
    (hroot : d.netlist.signal? q.root.id = some q.root) {id : SignalId}
    (hid : q.outcome.result = .ok id) (hresolved : Resolved q.signal q.cycle d id d') :
    Served (qs ++ [q]) d' := by
  have hlonger := hresolved.lengthens
  have hrootof : d.netlist.root q.signal = q.root := by rw [← hflow]; rfl
  have hcarries := hresolved.carries
  rw [hrootof] at hlonger hcarries
  have hsize : (d'.stages q.root.id).size = max (d.stages q.root.id).size q.gap := by
    have hsize := hresolved.size_eq
    rwa [hrootof] at hsize
  constructor
  · intro q' hq'
    rcases List.mem_append.mp hq' with hq' | hq'
    · exact hlonger.netlist _ _ (h.root q' hq')
    · obtain rfl := List.mem_singleton.mp hq'
      exact hlonger.netlist _ _ hroot
  · intro q' hq'
    rcases List.mem_append.mp hq' with hq' | hq'
    · obtain ⟨id', hid', hcarries'⟩ := h.answered q' hq'
      exact ⟨id', hid', hcarries'.mono hlonger.toExtends⟩
    · obtain rfl := List.mem_singleton.mp hq'
      exact ⟨id, hid, hcarries⟩
  · intro r
    -- the line of the root is as long as the later of all requests; other lines stay
    by_cases hr : r = q.root.id
    · subst hr
      rw [hsize]
      rcases Nat.lt_or_ge (d.stages q.root.id).size q.gap with hlt | hle
      · exact .inr ⟨q, by simp, rfl, Nat.max_eq_right (Nat.le_of_lt hlt)⟩
      · rw [Nat.max_eq_left hle]
        rcases h.short q.root.id with hempty | ⟨q', hq', hsame, hlen⟩
        · refine .inl (Array.eq_empty_of_size_eq_zero ?_)
          rw [hsize, Nat.max_eq_left hle, hempty]
          rfl
        · exact .inr ⟨q', List.mem_append_left _ hq', hsame, hlen⟩
    · rw [stages, hlonger.others hr]
      apply (h.short r).imp_right
      rintro ⟨q', hq', hrest⟩
      exact ⟨q', List.mem_append_left _ hq', hrest⟩
  · intro r c
    have hlast : (∃ q' ∈ qs ++ [q], q'.root.id = r ∧ q'.cycle = c ∧ q'.signal.cycle < c) ↔
        c ∈ (d.line r).answers ∨ q.root.id = r ∧ q.cycle = c ∧ q.signal.cycle < c := by
      rw [h.mem_answers]
      simp only [List.mem_append, List.mem_singleton, or_and_right, exists_or, exists_eq_left]
    rw [hlast]
    by_cases hr : r = q.root.id
    · subst hr
      have hmem := hresolved.mem_answers (c := c)
      rw [hrootof] at hmem
      rw [hmem]
      refine or_congr_right ⟨?_, ?_⟩
      · rintro ⟨rfl, hlt⟩
        exact ⟨rfl, rfl, hlt⟩
      · rintro ⟨-, rfl, hlt⟩
        exact ⟨rfl, hlt⟩
    · rw [hlonger.others hr]
      constructor
      · exact .inl
      · rintro (hc | ⟨hsame, -⟩)
        · exact hc
        · exact absurd hsame.symm hr

theorem Evolves.served (h : ({} : Dataflow).Evolves qs d) (hok : ∀ q ∈ qs, ¬ q.Fails) :
    Served qs d := by
  induction h with
  | refl => exact served_empty
  | declare _ decl _ _ ih => exact (ih hok).mono (extends_declare decl) (fun _ => rfl) fun _ => rfl
  | stem _ r stem _ ih =>
      refine (ih hok).mono (extends_setStem r stem) (fun r' => ?_) fun r' => ?_
      · exact stages_setStem r r' stem
      · exact answers_setStem r r' stem
  | @request qs d' before s cycle hs hrole ih =>
      have hserved := ih fun q hq => hok q (List.mem_append_left _ hq)
      have hlast := hok ⟨d', s, cycle⟩ (by simp)
      have hsound := before.sound sound_empty
      cases hresult : (resolve s cycle d').result with
      | error e => exact absurd ⟨e, hresult⟩ hlast
      | ok id =>
          refine hserved.request (q := ⟨d', s, cycle⟩) rfl ?_ hresult ?_
          · exact (hsound.root_spec hs).1
          · exact (wp_resolve hsound hs hrole cycle).of_ok hresult

end Retime.Dataflow
