import Retime.Proofs.Dataflow.Sound

/-! # Alignment

The one fact about `resolve`: the answer carries the value that was asked for, the line
behind its root is as long as the longest way that was asked for, and it stays sound
even if a name was taken on the way.
-/

namespace Retime.Dataflow

open Retime.Action

variable {d d' : Dataflow}

/-! ## Answers -/

/-- Notes the stage that is valid in a cycle. -/
def remember (d : Dataflow) (r : SignalId) (cycle : Nat) (id : SignalId) : Dataflow :=
  d.setLine r { d.line r with answers := (d.line r).answers.insert cycle id }

@[simp] theorem stages_remember (r r' : SignalId) (cycle : Nat) (id : SignalId) :
    (d.remember r cycle id).stages r' = d.stages r' := by
  unfold remember
  rw [stages_setLine]
  split
  next h => rw [← h]; rfl
  · rfl

@[simp] theorem stem_line_remember (r r' : SignalId) (cycle : Nat) (id : SignalId) :
    ((d.remember r cycle id).line r').stem = (d.line r').stem := by
  unfold remember
  rw [line_setLine]
  split
  next h => rw [h]
  · rfl

theorem answers_remember (r r' : SignalId) (cycle : Nat) (id : SignalId) :
    ((d.remember r cycle id).line r').answers =
      if r = r' then (d.line r).answers.insert cycle id else (d.line r').answers := by
  unfold remember
  rw [line_setLine]
  split <;> rfl

theorem lengthens_remember (r : SignalId) (cycle : Nat) (id : SignalId) :
    Lengthens r d (d.remember r cycle id) where
  netlist := .refl _
  stages hk := (stages_remember r _ cycle id).symm ▸ hk
  signals hs := .inl hs
  others hr := by
    unfold remember
    rw [line_setLine, if_neg (Ne.symm hr)]
  stem_eq := stem_line_remember r r cycle id

theorem Sound.remember (h : d.Sound) {root : Signal} {r id : SignalId} {k : Nat}
    (hroot : d.netlist.signal? r = some root) (hk : (d.stages r)[k]? = some id) :
    (d.remember r (root.cycle + (k + 1)) id).Sound where
  lawful := h.lawful
  stage hk' := by
    rw [stages_remember] at hk'
    obtain ⟨root', hroot', hnone, hrole, hs⟩ := h.stage hk'
    rw [← stem_congr (stem_line_remember r root'.id (root.cycle + (k + 1)) id)] at hs
    exact ⟨root', hroot', hnone, hrole, hs⟩
  place hs hdriver := by
    rw [stages_remember]
    exact h.place hs hdriver
  answer {r' id' cycle} hc := by
    rw [stages_remember]
    rw [answers_remember] at hc
    split at hc
    next hr =>
      subst hr
      rw [Std.TreeMap.getElem?_insert] at hc
      split at hc
      next hcycle =>
        rw [Std.compare_eq_iff_eq] at hcycle
        exact ⟨root, k, hroot, hcycle.symm, Option.some.inj hc ▸ hk⟩
      · exact h.answer hc
    · exact h.answer hc

/-! ## Lines -/

section Carries

variable {root : Signal} {cycle : Nat} {id : SignalId}

theorem Carries.le (h : d.Carries root cycle id) : root.cycle ≤ cycle := by
  rcases h with ⟨rfl, -⟩ | ⟨k, rfl, -⟩
  · exact Nat.le_refl _
  · exact Nat.le_add_right _ _

/-- A way that was gone before needs no further stages. -/
theorem Carries.le_size (h : d.Carries root cycle id) :
    cycle - root.cycle ≤ (d.stages root.id).size := by
  rcases h with ⟨rfl, -⟩ | ⟨k, rfl, hk⟩
  · rw [Nat.sub_self]
    exact Nat.zero_le _
  · rw [Nat.add_sub_cancel_left]
    exact (Array.getElem?_eq_some_iff.mp hk).1

end Carries

/-- What appending stages leaves: a sound line, in which nothing else was noted. -/
structure Grown (root : Signal) (d d' : Dataflow) : Prop where
  sound : d'.Sound
  lengthens : Lengthens root.id d d'
  answers : (d'.line root.id).answers = (d.line root.id).answers

theorem wp_addStages {root : Signal} (h : d.Sound)
    (hroot : d.netlist.signal? root.id = some root) (hnone : root.isStage = false)
    (hrole : root.role ≠ .output) (count : Nat) :
    (addStages root (d.stem root) count ((d.stages root.id).size + 1)).wp
      (fun _ d' => Grown root d d' ∧
        (d'.stages root.id).size = (d.stages root.id).size + count)
      (fun _ d' => Grown root d d') d := by
  -- a name that is taken stops the induction; the stages appended before it stay
  induction count generalizing d with
  | zero => exact ⟨⟨h, .refl _ _, rfl⟩, rfl⟩
  | succ count ih =>
      unfold addStages
      rw [wp_bind, wp_addStage]
      refine ⟨fun _ => ⟨h, .refl _ _, rfl⟩, fun hfree => ?_⟩
      have hlonger := lengthens_grow (d := d) root
      have hsize : ((d.grow root).stages root.id).size = (d.stages root.id).size + 1 := by
        rw [stages_grow_self, Array.size_push]
      have hrest := ih (h.grow hroot hnone hrole hfree) (hlonger.netlist _ _ hroot)
      rw [stem_congr (stem_line_grow root root.id), hsize] at hrest
      have hgrown : ∀ d', Grown root (d.grow root) d' → Grown root d d' := fun d' hd' =>
        ⟨hd'.sound, hlonger.trans hd'.lengthens, hd'.answers.trans (answers_grow root root.id)⟩
      refine hrest.mono (fun _ d' hd' => ⟨hgrown d' hd'.1, ?_⟩) fun _ d' hd' => hgrown d' hd'
      rw [hd'.2]
      omega

/-! ## Requests -/

/-- The outcome of a request that is answered with `id`. -/
structure Resolved (s : Signal) (cycle : Nat) (d : Dataflow) (id : SignalId) (d' : Dataflow) :
    Prop where
  sound : d'.Sound
  lengthens : Lengthens (d.netlist.root s).id d d'
  le : s.cycle ≤ cycle
  carries : d'.Carries (d.netlist.root s) cycle id
  size_eq : (d'.stages (d.netlist.root s).id).size =
    max (d.stages (d.netlist.root s).id).size (cycle - (d.netlist.root s).cycle)
  mem_answers : ∀ {c}, c ∈ (d'.line (d.netlist.root s).id).answers ↔
    c ∈ (d.line (d.netlist.root s).id).answers ∨ c = cycle ∧ s.cycle < cycle

/-- What every request leaves, answered or not. -/
structure Attempted (s : Signal) (d d' : Dataflow) : Prop where
  sound : d'.Sound
  lengthens : Lengthens (d.netlist.root s).id d d'

/-- A request for which nothing has to be done. -/
theorem Sound.resolved (h : d.Sound) {s : Signal} {cycle : Nat} {id : SignalId}
    (hcarries : d.Carries (d.netlist.root s) cycle id) (hle : s.cycle ≤ cycle)
    (hnoted : s.cycle < cycle → cycle ∈ (d.line (d.netlist.root s).id).answers) :
    Resolved s cycle d id d where
  sound := h
  lengthens := .refl _ _
  le := hle
  carries := hcarries
  size_eq := (Nat.max_eq_left hcarries.le_size).symm
  mem_answers {c} := by
    constructor
    · exact .inl
    · rintro (hc | ⟨rfl, hlt⟩)
      · exact hc
      · exact hnoted hlt

/-- A request whose stages were appended and whose answer is noted. -/
theorem Grown.resolved {s : Signal} {cycle k : Nat} {id : SignalId}
    (h : Grown (d.netlist.root s) d d')
    (hroot : d.netlist.signal? (d.netlist.root s).id = some (d.netlist.root s))
    (hlt : s.cycle < cycle) (hcycle : cycle = (d.netlist.root s).cycle + (k + 1))
    (hk : (d'.stages (d.netlist.root s).id)[k]? = some id)
    (hsize : (d'.stages (d.netlist.root s).id).size =
      max (d.stages (d.netlist.root s).id).size (k + 1)) :
    Resolved s cycle d id (d'.remember (d.netlist.root s).id cycle id) where
  sound := hcycle ▸ h.sound.remember (h.lengthens.netlist _ _ hroot) hk
  lengthens := h.lengthens.trans (lengthens_remember _ _ _)
  le := Nat.le_of_lt hlt
  carries := .inr ⟨k, hcycle, by rwa [stages_remember]⟩
  size_eq := by
    rw [stages_remember, hsize, hcycle, Nat.add_sub_cancel_left]
  mem_answers {c} := by
    rw [answers_remember, if_pos rfl, Std.TreeMap.mem_insert, Std.compare_eq_iff_eq, h.answers]
    constructor
    · rintro (rfl | hc)
      · exact .inr ⟨rfl, hlt⟩
      · exact .inl hc
    · rintro (hc | ⟨rfl, -⟩)
      · exact .inr hc
      · exact .inl rfl

theorem wp_resolve {s : Signal} (h : d.Sound) (hs : d.netlist.signal? s.id = some s)
    (hrole : s.role ≠ .output) (cycle : Nat) :
    (resolve s cycle).wp (Resolved s cycle d) (fun _ d' => Attempted s d d') d := by
  obtain ⟨hroot, hnone, hcarries⟩ := h.root_spec hs
  have hrootle := hcarries.le
  unfold resolve
  rw [wp_ite]
  refine ⟨fun _ => ⟨h, .refl _ _⟩, fun hge => ?_⟩
  rw [wp_ite]
  constructor
  · rintro rfl
    exact h.resolved hcarries (Nat.le_refl _) fun hlt => absurd hlt (Nat.lt_irrefl _)
  intro hne
  have hlt : s.cycle < cycle := by omega
  rw [wp_bind, wp_get]
  dsimp only
  split
  next id hanswer =>
    -- the answer that is remembered stands where a new one would stand
    obtain ⟨root, k, hroot', hcycle, hk⟩ := h.answer hanswer
    obtain rfl : d.netlist.root s = root := Option.some.inj (hroot.symm.trans hroot')
    refine h.resolved (.inr ⟨k, hcycle, hk⟩) (Nat.le_of_lt hlt) fun _ => ?_
    rw [Std.TreeMap.mem_iff_isSome_getElem?, hanswer]
    rfl
  next hanswer =>
    -- at least one stage is asked for, since the root is not valid later than `s`
    obtain ⟨k, hcycle⟩ : ∃ k, cycle = (d.netlist.root s).cycle + (k + 1) :=
      ⟨cycle - (d.netlist.root s).cycle - 1, by omega⟩
    have hgap : cycle - (d.netlist.root s).cycle = k + 1 := by omega
    rw [hgap, wp_bind]
    refine (wp_addStages h hroot hnone (h.root_role hs hrole) _).mono (fun _ d' hd' => ?_)
      fun _ d' hd' => ?_
    · obtain ⟨hgrown, hsize⟩ := hd'
      have hsize' : (d'.stages (d.netlist.root s).id).size =
          max (d.stages (d.netlist.root s).id).size (k + 1) := by
        rw [hsize]
        show _ + (k + 1 - (d.stages (d.netlist.root s).id).size) = _
        omega
      have hk : (d'.stages (d.netlist.root s).id)[k]? =
          some ((d'.stages (d.netlist.root s).id).getD k s.id) := by
        have hbound : k < (d'.stages (d.netlist.root s).id).size := by omega
        simp [Array.getD, hbound]
      simp only [wp_bind, wp_get, wp_modify, wp_pure, Nat.add_sub_cancel]
      exact hgrown.resolved hroot hlt hcycle hk hsize'
    · exact ⟨hd'.sound, hd'.lengthens⟩

/-! ## The same cycle and the next -/

theorem returns_resolve_here {s : Signal} {cycle : Nat} (hcycle : s.cycle = cycle)
    (d : Dataflow) : (resolve s cycle).Returns d s.id d := by
  subst hcycle
  unfold resolve
  rw [if_neg (Nat.lt_irrefl _), if_pos rfl]
  exact returns_pure s.id d

/-- A signal without a delay line is carried to the next cycle by a stage of its own. -/
theorem returns_resolve_next {s : Signal} (hroot : d.netlist.root s = s)
    (hline : d.line s.id = {}) (hfree : d.netlist.contains (stageName s.name 1) = false) :
    (resolve s (s.cycle + 1)).Returns d d.netlist.size
      ((d.grow s).remember s.id (s.cycle + 1) d.netlist.size) := by
  have hstages : d.stages s.id = #[] := by rw [stages, hline]
  have hstem : d.stem s = s.name := by
    rw [stem, hline]
    rfl
  have hadds : (addStages s s.name 1 1).Returns d () (d.grow s) := by
    have hadd : (addStage s (d.stem s) ((d.stages s.id).size + 1)).Returns d () (d.grow s) := by
      refine wp_addStage.mpr ⟨fun htaken => ?_, fun _ => ⟨rfl, rfl⟩⟩
      rw [hstages, hstem] at htaken
      exact Bool.false_ne_true (hfree.symm.trans htaken)
    rw [hstages, hstem] at hadd
    exact hadd.bind (returns_pure () _)
  have hgap : s.cycle + 1 - s.cycle = 1 := Nat.add_sub_cancel_left ..
  have hgrown : ((d.grow s).line s.id).stages = #[d.netlist.size] := by
    rw [← stages, stages_grow_self, hstages]
    rfl
  unfold resolve Returns
  rw [if_neg (Nat.not_lt_of_le (Nat.le_add_right ..)), if_neg (Nat.succ_ne_self _), wp_bind, wp_get]
  simp only [hroot, hline, hgap, Std.TreeMap.getElem?_emptyc, wp_bind]
  refine hadds.wp ?_
  simp only [wp_get, wp_modify, wp_pure, hgrown, remember]
  exact ⟨rfl, rfl⟩

end Retime.Dataflow
