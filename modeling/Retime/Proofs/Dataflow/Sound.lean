import Retime.Proofs.Dataflow.Basic
import Retime.Proofs.Netlist

/-! # Sound delay lines

A line holds the stages behind its root in their order, each of them in one place only,
and it remembers for each cycle it was asked for the stage that is valid then. This is
kept when a signal is declared, when a stage is appended and when an answer is noted,
and everything that is done to lines consists of these.
-/

namespace Retime.Dataflow

open Netlist (Lawful)

structure Sound (d : Dataflow) : Prop where
  lawful : d.netlist.Lawful
  /-- Behind `r` there are stages of `r` only, each at its depth; outputs have none. -/
  stage : ∀ {r : SignalId} {k : Nat} {id : SignalId}, (d.stages r)[k]? = some id →
    ∃ root, d.netlist.signal? r = some root ∧ root.isStage = false ∧ root.role ≠ .output ∧
      d.netlist.signal? id = some ⟨stageOf root (d.stem root) (k + 1), id⟩
  /-- A stage stands in the line of its root. -/
  place : ∀ {s r depth}, d.netlist.signal? s.id = some s → s.driver = .stage r depth →
    ∃ k, depth = k + 1 ∧ (d.stages r)[k]? = some s.id
  /-- What is remembered for a cycle is the stage that is valid in it. -/
  answer : ∀ {r id} {cycle : Nat}, (d.line r).answers[cycle]? = some id →
    ∃ root k, d.netlist.signal? r = some root ∧ cycle = root.cycle + (k + 1) ∧
      (d.stages r)[k]? = some id

/-- All signals and stages of `d` are in the same places in `d'`. -/
structure Extends (d d' : Dataflow) : Prop where
  netlist : d.netlist.Extends d'.netlist
  stages : ∀ {r : SignalId} {k : Nat} {id : SignalId},
    (d.stages r)[k]? = some id → (d'.stages r)[k]? = some id

/-- Nothing but the line of `r` differs, and it is longer. -/
structure Lengthens (r : SignalId) (d d' : Dataflow) : Prop extends Extends d d' where
  signals : ∀ {id s}, d'.netlist.signal? id = some s →
    d.netlist.signal? id = some s ∨ s.isStage = true
  others : ∀ {r'}, r' ≠ r → d'.line r' = d.line r'
  stem_eq : (d'.line r).stem = (d.line r).stem

/-- In `cycle`, the signal `id` carries the value of `root`: it is `root` itself or one of
its stages. -/
def Carries (d : Dataflow) (root : Signal) (cycle : Nat) (id : SignalId) : Prop :=
  (cycle = root.cycle ∧ id = root.id) ∨
    ∃ k, cycle = root.cycle + (k + 1) ∧ (d.stages root.id)[k]? = some id

variable {d d' d'' : Dataflow}

/-! ## Extensions -/

theorem Extends.refl (d : Dataflow) : d.Extends d where
  netlist := .refl _
  stages h := h

theorem Extends.trans (h : d.Extends d') (h' : d'.Extends d'') : d.Extends d'' where
  netlist := h.netlist.trans h'.netlist
  stages hk := h'.stages (h.stages hk)

theorem Lengthens.refl (r : SignalId) (d : Dataflow) : Lengthens r d d where
  toExtends := .refl d
  signals h := .inl h
  others _ := rfl
  stem_eq := rfl

theorem Lengthens.trans {r : SignalId} (h : Lengthens r d d') (h' : Lengthens r d' d'') :
    Lengthens r d d'' where
  toExtends := h.toExtends.trans h'.toExtends
  signals hs := by
    rcases h'.signals hs with hs | hs
    · exact h.signals hs
    · exact .inr hs
  others hr := (h'.others hr).trans (h.others hr)
  stem_eq := h'.stem_eq.trans h.stem_eq

theorem Carries.mono {root : Signal} {cycle : Nat} {id : SignalId} (h : d.Carries root cycle id)
    (hext : d.Extends d') : d'.Carries root cycle id := by
  rcases h with h | ⟨k, hcycle, hk⟩
  · exact .inl h
  · exact .inr ⟨k, hcycle, hext.stages hk⟩

/-! ## What is known of a sound line -/

section Sound

variable (h : d.Sound)
include h

/-- A signal that is not in the table has no stages. -/
theorem Sound.stages_of_none {r : SignalId} (hr : d.netlist.signal? r = none) :
    d.stages r = #[] := by
  refine Array.eq_empty_of_size_eq_zero (Nat.eq_zero_of_not_pos fun hpos => ?_)
  obtain ⟨root, hroot, -⟩ := h.stage (Array.getElem?_eq_getElem hpos)
  rw [hr] at hroot
  cases hroot

/-- A stage has no stages. -/
theorem Sound.stages_of_isStage {s : Signal} (hs : d.netlist.signal? s.id = some s)
    (hstage : s.isStage = true) : d.stages s.id = #[] := by
  refine Array.eq_empty_of_size_eq_zero (Nat.eq_zero_of_not_pos fun hpos => ?_)
  obtain ⟨root, hroot, hnone, -, -⟩ := h.stage (Array.getElem?_eq_getElem hpos)
  rw [hs] at hroot
  cases hroot
  rw [hstage] at hnone
  cases hnone

/-- A signal stands in one place at most. -/
theorem Sound.place_unique {r r' : SignalId} {k k' : Nat} {id : SignalId}
    (hk : (d.stages r)[k]? = some id) (hk' : (d.stages r')[k']? = some id) :
    r = r' ∧ k = k' := by
  obtain ⟨root, hroot, -, -, hs⟩ := h.stage hk
  obtain ⟨root', hroot', -, -, hs'⟩ := h.stage hk'
  rw [hs, Option.some.injEq] at hs'
  have hdriver := congrArg (fun s : Signal => s.driver) hs'
  obtain ⟨hid, hdepth⟩ : root.id = root'.id ∧ k = k' := by
    simpa [stageOf] using hdriver
  exact ⟨by rw [← h.lawful.id_eq hroot, ← h.lawful.id_eq hroot', hid], hdepth⟩

/-- Every signal carries the value of its root, which is no stage. -/
theorem Sound.root_spec {s : Signal} (hs : d.netlist.signal? s.id = some s) :
    d.netlist.signal? (d.netlist.root s).id = some (d.netlist.root s) ∧
      (d.netlist.root s).isStage = false ∧ d.Carries (d.netlist.root s) s.cycle s.id := by
  unfold Netlist.root
  split
  next r depth hdriver =>
    obtain ⟨k, rfl, hk⟩ := h.place hs hdriver
    obtain ⟨root, hroot, hnone, -, hs'⟩ := h.stage hk
    obtain rfl := h.lawful.id_eq hroot
    rw [hroot, Option.getD_some]
    refine ⟨hroot, hnone, .inr ⟨k, ?_, hk⟩⟩
    rw [hs] at hs'
    rw [Option.some.inj hs']
    rfl
  next hdriver =>
    refine ⟨hs, ?_, .inl ⟨rfl, rfl⟩⟩
    unfold Signal.isStage
    split
    next r depth hstage => exact absurd hstage (hdriver r depth)
    · rfl

/-- The root of a signal that can be read can be read. -/
theorem Sound.root_role {s : Signal} (hs : d.netlist.signal? s.id = some s)
    (hrole : s.role ≠ .output) : (d.netlist.root s).role ≠ .output := by
  unfold Netlist.root
  split
  next r depth hdriver =>
    obtain ⟨k, -, hk⟩ := h.place hs hdriver
    obtain ⟨root, hroot, -, hrole', -⟩ := h.stage hk
    rwa [hroot, Option.getD_some]
  · exact hrole

end Sound

/-! ## Declarations -/

theorem sound_empty : ({} : Dataflow).Sound where
  lawful := Netlist.lawful_empty
  stage hk := by simp [stages, line] at hk
  place hs := by simp [Netlist.signal?] at hs
  answer hc := by simp [line] at hc

theorem extends_declare (decl : Declaration) :
    d.Extends { d with netlist := d.netlist.add decl } where
  netlist := Netlist.extends_add decl
  stages hk := hk

/-- The declaration of a signal that is no stage. -/
theorem Sound.declare (h : d.Sound) {decl : Declaration}
    (hfree : d.netlist.contains decl.name = false)
    (hdriver : ∀ r depth, decl.driver ≠ .stage r depth) :
    Sound { d with netlist := d.netlist.add decl } where
  lawful := h.lawful.add hfree
  stage hk := by
    obtain ⟨root, hroot, hnone, hrole, hs⟩ := h.stage hk
    have hext := Netlist.extends_add (n := d.netlist) decl
    exact ⟨root, hext _ _ hroot, hnone, hrole, hext _ _ hs⟩
  place hs hstage := by
    rcases Netlist.signal?_add_cases hs with ⟨-, hnew⟩ | hs
    · rw [hnew] at hstage
      exact absurd hstage (hdriver _ _)
    · exact h.place hs hstage
  answer hc := by
    obtain ⟨root, k, hroot, hcycle, hk⟩ := h.answer hc
    exact ⟨root, k, Netlist.extends_add decl _ _ hroot, hcycle, hk⟩

/-- Stages can be named as long as there are none. -/
theorem Sound.setStem (h : d.Sound) {r : SignalId} (hempty : d.stages r = #[]) (stem : String) :
    (d.setStem r stem).Sound where
  lawful := h.lawful
  stage {r' k id} hk := by
    rw [stages_setStem] at hk
    obtain ⟨root, hroot, hnone, hrole, hs⟩ := h.stage hk
    have hne : r ≠ root.id := by
      rintro rfl
      rw [h.lawful.id_eq hroot] at hempty
      simp [hempty] at hk
    have hstem : (d.setStem r stem).stem root = d.stem root := by
      apply stem_congr
      unfold Dataflow.setStem
      rw [line_setLine, if_neg hne]
    exact ⟨root, hroot, hnone, hrole, hstem.symm ▸ hs⟩
  place hs hstage := by
    rw [stages_setStem]
    exact h.place hs hstage
  answer hc := by
    rw [answers_setStem] at hc
    rw [stages_setStem]
    exact h.answer hc

/-! ## Stages -/

theorem lengthens_grow (root : Signal) : Lengthens root.id d (d.grow root) where
  netlist := Netlist.extends_add _
  stages {r k id} hk := by
    by_cases hr : r = root.id
    · subst hr
      rw [stages_grow_self, Array.getElem?_push, if_neg]
      · exact hk
      · exact Nat.ne_of_lt (Array.getElem?_eq_some_iff.mp hk).1
    · rw [stages, line_grow_of_ne hr]
      exact hk
  signals hs := by
    rcases Netlist.signal?_add_cases hs with ⟨-, rfl⟩ | hs
    · exact .inr rfl
    · exact .inl hs
  others := line_grow_of_ne
  stem_eq := stem_line_grow root root.id

/-- The stages after one was appended. -/
theorem stages_grow_cases {root : Signal} {r : SignalId} {k : Nat} {id : SignalId}
    (hk : ((d.grow root).stages r)[k]? = some id) :
    (r = root.id ∧ k = (d.stages r).size ∧ id = d.netlist.size) ∨ (d.stages r)[k]? = some id := by
  by_cases hr : r = root.id
  · subst hr
    rw [stages_grow_self, Array.getElem?_push] at hk
    split at hk
    next hsize => exact .inl ⟨rfl, hsize, (Option.some.inj hk).symm⟩
    · exact .inr hk
  · rw [stages, line_grow_of_ne hr] at hk
    exact .inr hk

theorem Sound.grow (h : d.Sound) {root : Signal}
    (hroot : d.netlist.signal? root.id = some root) (hnone : root.isStage = false)
    (hrole : root.role ≠ .output)
    (hfree : d.netlist.contains (stageName (d.stem root) ((d.stages root.id).size + 1)) = false) :
    (d.grow root).Sound := by
  have hext := (lengthens_grow (d := d) root).toExtends
  constructor
  · exact h.lawful.add hfree
  · intro r k id hk
    rcases stages_grow_cases hk with ⟨rfl, rfl, rfl⟩ | hk
    · refine ⟨root, hext.netlist _ _ hroot, hnone, hrole, ?_⟩
      rw [stem_congr (stem_line_grow root root.id)]
      exact Netlist.signal?_add_size _
    · obtain ⟨root', hroot', hnone', hrole', hs⟩ := h.stage hk
      refine ⟨root', hext.netlist _ _ hroot', hnone', hrole', ?_⟩
      rw [stem_congr (stem_line_grow root root'.id)]
      exact hext.netlist _ _ hs
  · intro s r depth hs hdriver
    rcases Netlist.signal?_add_cases hs with ⟨hid, hnew⟩ | hs
    · rw [hnew] at hdriver
      obtain ⟨rfl, rfl⟩ : root.id = r ∧ (d.stages root.id).size + 1 = depth := by
        simpa [stageOf] using hdriver
      refine ⟨_, rfl, ?_⟩
      rw [stages_grow_self, hid]
      exact Array.getElem?_push_size
    · obtain ⟨k, hdepth, hk⟩ := h.place hs hdriver
      exact ⟨k, hdepth, hext.stages hk⟩
  · intro r id cycle hc
    rw [answers_grow] at hc
    obtain ⟨root', k, hroot', hcycle, hk⟩ := h.answer hc
    exact ⟨root', k, hext.netlist _ _ hroot', hcycle, hext.stages hk⟩

end Retime.Dataflow
