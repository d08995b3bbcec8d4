import Retime.Proofs.Dataflow.Exact
import Retime.Proofs.Operator.Requests

/-! # Resolution

A request for the value of a signal in a cycle, in any dataflow of an operator: when it is
answered, what it adds, how requests compose, and what is left of one that meets a name that is
taken.
-/

namespace Retime.Dataflow

open Retime.Action

/-- Asks for the value of `s` in the cycle `first`, and then for what carries it there in the
cycle `second`. -/
def resolveVia (s : Signal) (first second : Nat) : Action Fault Dataflow SignalId := do
  let id ← resolve s first
  match (← Action.get).netlist.signal? id with
  | some s' => resolve s' second
  | none => return id

/-- A later request that the stages in `d` reach is answered from them: whatever was declared
and asked for since, nothing is created. -/
def Reaches (d : Dataflow) (root : Signal) (depth : Nat) : Prop :=
  ∀ (qs : List Request) (d' : Dataflow), d.Evolves qs d' → ∀ (s : Signal) (cycle : Nat),
    d'.netlist.signal? s.id = some s → (d'.netlist.root s).id = root.id →
    s.cycle ≤ cycle → cycle ≤ root.cycle + depth →
    ∃ id, (resolve s cycle d').result = .ok id ∧ d.Carries root cycle id ∧
      (resolve s cycle d').state.netlist = d'.netlist ∧
      ∀ r, (resolve s cycle d').state.stages r = d'.stages r

/-- What the request for `s` in `cycle` does in `d`, to the last signal. -/
structure Exact (d : Dataflow) (s : Signal) (cycle : Nat) : Prop where
  early_iff : cycle < s.cycle ↔ ∃ name declared requested,
    (resolve s cycle d).result = .error (.backwardReference name declared requested)
  early : cycle < s.cycle → (resolve s cycle d).state = d
  own : cycle = s.cycle → (resolve s cycle d).result = .ok s.id ∧ (resolve s cycle d).state = d
  late_iff : s.cycle < cycle → ((∃ id, (resolve s cycle d).result = .ok id) ↔
    d.Unhindered (d.netlist.root s) (cycle - (d.netlist.root s).cycle))
  late : s.cycle < cycle → ∀ {id : SignalId}, (resolve s cycle d).result = .ok id →
    d.Gains (d.netlist.root s)
        (cycle - (d.netlist.root s).cycle - (d.stages (d.netlist.root s).id).size)
        (resolve s cycle d).state ∧
      ∃ s', (resolve s cycle d).state.netlist.signal? id = some s' ∧ s'.cycle = cycle ∧
        (resolve s cycle d).state.netlist.root s' = d.netlist.root s
  refused : s.cycle < cycle → ∀ {e : Fault}, (resolve s cycle d).result = .error e →
    ∃ count, (d.stages (d.netlist.root s).id).size + count < cycle - (d.netlist.root s).cycle ∧
      d.Hindered (d.netlist.root s) count e ∧
      d.Gains (d.netlist.root s) count (resolve s cycle d).state ∧
      (∀ r, ((resolve s cycle d).state.line r).answers = (d.line r).answers) ∧
      (resolve s cycle d).state.Reaches (d.netlist.root s)
        ((d.stages (d.netlist.root s).id).size + count)

/-- The request for `s` in the cycle `second` can be made in two steps, with a stop in the cycle
`first`. -/
structure Composes (d : Dataflow) (s : Signal) (first second : Nat) : Prop where
  result_iff : ∀ {id : SignalId}, (resolveVia s first second d).result = .ok id ↔
    (resolve s second d).result = .ok id
  netlist_eq : ∀ {id : SignalId}, (resolve s second d).result = .ok id →
    (resolveVia s first second d).state.netlist = (resolve s second d).state.netlist
  stages_eq : ∀ {id : SignalId}, (resolve s second d).result = .ok id → ∀ r,
    (resolveVia s first second d).state.stages r = (resolve s second d).state.stages r

/-- In `d'` the line of `root` is in place and has at least the stages that it has in `d`. -/
structure Prolongs (d : Dataflow) (root : Signal) (d' : Dataflow) : Prop where
  rooted : d'.Rooted root
  stages : ∀ {k : Nat} {id : SignalId},
    (d.stages root.id)[k]? = some id → (d'.stages root.id)[k]? = some id

variable {d d' d'' : Dataflow} {root s : Signal} {cycle count : Nat} {id : SignalId}

/-! ## Answers -/

theorem Hindered.not_unhindered {e : Fault} (h : d.Hindered root count e) {depth : Nat}
    (hshort : (d.stages root.id).size + count < depth) : ¬ d.Unhindered root depth := by
  intro hfree
  have hname := hfree _ (Nat.lt_succ_of_le (Nat.le_add_right _ count)) hshort
  rw [h.taken] at hname
  cases hname

section Rooted

variable (h : d.Rooted root) (hs : d.netlist.signal? s.id = some s)
  (hcarries : d.Carries root s.cycle s.id)
include h hs hcarries

theorem Rooted.answered_of_ok (hok : (resolve s cycle d).result = .ok id) :
    d.Answered root s cycle id (resolve s cycle d).state :=
  (wp_resolve_exact h hs hcarries cycle).of_ok hok

theorem Rooted.refused_of_error {e : Fault} (herror : (resolve s cycle d).result = .error e) :
    d.Refused root s cycle e (resolve s cycle d).state :=
  (wp_resolve_exact h hs hcarries cycle).of_error herror

/-- A request is answered if it is not too early and no name on the way is taken. -/
theorem Rooted.ok_iff : (∃ id, (resolve s cycle d).result = .ok id) ↔
    s.cycle ≤ cycle ∧ d.Unhindered root (cycle - root.cycle) := by
  constructor
  · rintro ⟨id, hok⟩
    have hanswered := h.answered_of_ok hs hcarries hok
    exact ⟨hanswered.le, hanswered.free⟩
  · rintro ⟨hle, hfree⟩
    cases hresult : (resolve s cycle d).result with
    | ok id => exact ⟨id, rfl⟩
    | error e =>
        cases h.refused_of_error hs hcarries hresult with
        | early lt => exact absurd hle (Nat.not_le_of_lt lt)
        | hindered count lt short hindered => exact absurd hfree (hindered.not_unhindered short)

theorem Rooted.early_iff : cycle < s.cycle ↔ ∃ name declared requested,
    (resolve s cycle d).result = .error (.backwardReference name declared requested) := by
  constructor
  · intro hlt
    cases hresult : (resolve s cycle d).result with
    | ok id =>
        exact absurd (h.answered_of_ok hs hcarries hresult).le (Nat.not_le_of_lt hlt)
    | error e =>
        cases h.refused_of_error hs hcarries hresult with
        | early _ fault_eq => exact ⟨_, _, _, congrArg Except.error fault_eq⟩
        | hindered count lt => omega
  · rintro ⟨name, declared, requested, hresult⟩
    cases h.refused_of_error hs hcarries hresult with
    | early lt => exact lt
    | hindered count lt short hindered =>
        have hfault := hindered.fault_eq
        cases hfault

/-- A cycle that the stages reach is served by them. -/
theorem Rooted.answered_of_reached (hle : s.cycle ≤ cycle)
    (hreached : cycle ≤ root.cycle + (d.stages root.id).size) :
    ∃ id, (resolve s cycle d).result = .ok id ∧ d.Carries root cycle id ∧
      (resolve s cycle d).state.netlist = d.netlist ∧
      ∀ r, (resolve s cycle d).state.stages r = d.stages r := by
  obtain ⟨id, hok⟩ := (h.ok_iff hs hcarries).mpr
    ⟨hle, fun k hlow hhigh => absurd hlow (by omega)⟩
  have hanswered := h.answered_of_ok hs hcarries hok
  have hgrown := hanswered.grown
  rw [Nat.sub_eq_zero_of_le (by omega)] at hgrown
  refine ⟨id, hok, ?_, hgrown.netlist_eq, hgrown.stages_eq⟩
  have hstages : (resolve s cycle d).state.stages root.id = d.stages root.id :=
    hgrown.stages_eq root.id
  have hid := hanswered.carries
  rwa [Carries, hstages] at hid

end Rooted

/-! ## Later requests -/

theorem Rooted.congr (h : d.Rooted root) (hnetlist : d'.netlist = d.netlist)
    (hline : d'.line root.id = d.line root.id) : d'.Rooted root where
  id_eq hs := h.id_eq (hnetlist ▸ hs)
  mem := hnetlist ▸ h.mem
  nonstage := h.nonstage
  stage hk := by
    rw [hnetlist, stem_congr (congrArg (·.stem) hline)]
    exact h.stage (by rwa [stages, hline] at hk)
  place hs hdriver := by
    rw [stages, hline]
    exact h.place (hnetlist ▸ hs) hdriver
  answer hanswer := by
    rw [stages, hline]
    exact h.answer (hline ▸ hanswer)

/-- A signal is declared that is no stage of `root`. -/
theorem Rooted.add (h : d.Rooted root) {decl : Declaration}
    (hdriver : ∀ depth, decl.driver ≠ .stage root.id depth) :
    Rooted { d with netlist := d.netlist.add decl } root where
  id_eq hs := by
    rcases Netlist.signal?_add_cases hs with ⟨rfl, rfl⟩ | hs
    · rfl
    · exact h.id_eq hs
  mem := Netlist.extends_add decl _ _ h.mem
  nonstage := h.nonstage
  stage hk := Netlist.extends_add decl _ _ (h.stage hk)
  place hs hstage := by
    rcases Netlist.signal?_add_cases hs with ⟨-, hnew⟩ | hs
    · rw [hnew] at hstage
      exact absurd hstage (hdriver _)
    · exact h.place hs hstage
  answer hanswer := h.answer hanswer

/-- A line without stages is named. -/
theorem Rooted.setStem (h : d.Rooted root) {r : SignalId} (hempty : d.stages r = #[])
    (stem : String) : (d.setStem r stem).Rooted root where
  id_eq hs := h.id_eq hs
  mem := h.mem
  nonstage := h.nonstage
  stage hk := by
    rw [stages_setStem] at hk
    have hne : r ≠ root.id := by
      rintro rfl
      simp [hempty] at hk
    have hstem : (d.setStem r stem).stem root = d.stem root := by
      apply stem_congr
      rw [Dataflow.setStem, line_setLine, if_neg hne]
    exact hstem.symm ▸ h.stage hk
  place hs hdriver := (stages_setStem r _ stem).symm ▸ h.place hs hdriver
  answer hanswer := by
    rw [answers_setStem] at hanswer
    rw [stages_setStem]
    exact h.answer hanswer

/-- Stages behind another root. -/
theorem Rooted.of_others (h : d.Rooted root) {r : Signal} (hne : r.id ≠ root.id)
    (hgrown : d.GrownBy r count d') : d'.Rooted root := by
  have hgrow : (d.growBy r count).Rooted root := by
    clear hgrown
    induction count with
    | zero => exact h
    | succ count ih =>
        have hadd : Rooted { d.growBy r count with
            netlist := (d.growBy r (count + 1)).netlist } root :=
          ih.add fun depth hdriver => hne (Driver.stage.inj hdriver).1
        exact hadd.congr rfl (line_grow_of_ne hne.symm)
  refine hgrow.congr hgrown.netlist_eq ?_
  rw [hgrown.others _ hne.symm, line_growBy_of_ne _ hne.symm]

/-- Whatever is asked for, stages are appended behind one root. -/
theorem wp_resolve_grown (d : Dataflow) (s : Signal) (cycle : Nat) :
    (resolve s cycle).wp (fun _ d' => ∃ count, d.GrownBy (d.netlist.root s) count d')
      (fun _ d' => ∃ count, d.GrownBy (d.netlist.root s) count d') d := by
  have hsame : ∃ count, d.GrownBy (d.netlist.root s) count d := ⟨0, grownBy_growBy d _ 0⟩
  unfold resolve
  rw [wp_ite]
  refine ⟨fun _ => hsame, fun _ => ?_⟩
  rw [wp_ite]
  refine ⟨fun _ => hsame, fun _ => ?_⟩
  rw [wp_bind, wp_get]
  dsimp only
  split
  · exact hsame
  · rw [wp_bind]
    refine (wp_addStages_exact d (d.netlist.root s) _).mono ?_ ?_
    · rintro - d' ⟨-, rfl⟩
      simp only [wp_bind, wp_get, wp_modify, wp_pure]
      exact ⟨_, (grownBy_growBy d _ _).remember cycle _⟩
    · rintro e d' ⟨done, -, -, rfl⟩
      exact ⟨done, grownBy_growBy d _ done⟩

theorem GrownBy.stages_mono (h : d.GrownBy root count d') {k : Nat}
    (hk : (d.stages root.id)[k]? = some id) : (d'.stages root.id)[k]? = some id := by
  obtain ⟨-, hstages, -⟩ := h.gains
  rw [← Array.getElem?_toList] at hk ⊢
  rw [hstages, List.getElem?_append_left (List.getElem?_eq_some_iff.mp hk).1]
  exact hk

/-- A signal whose root is `root` carries its value. -/
theorem Rooted.carries_of_root (h : d.Rooted root) (hs : d.netlist.signal? s.id = some s)
    (hroot : (d.netlist.root s).id = root.id) : d.Carries root s.cycle s.id := by
  have hself : s.id = root.id → s = root := by
    intro hid
    rw [hid, h.mem] at hs
    exact (Option.some.inj hs).symm
  unfold Netlist.root at hroot
  split at hroot
  next r depth hdriver =>
    obtain rfl : r = root.id := by
      cases hr : d.netlist.signal? r with
      | some r' =>
          rw [hr, Option.getD_some] at hroot
          exact (h.id_eq hr).symm.trans hroot
      | none =>
          -- the signal would be its own root, and no stage
          rw [hr, Option.getD_none] at hroot
          have hstage := h.nonstage
          rw [← hself hroot, Signal.isStage, hdriver] at hstage
          cases hstage
    obtain ⟨k, -, hk⟩ := h.place hs hdriver
    have hstage := h.stage hk
    rw [hs, Option.some.injEq] at hstage
    exact .inr ⟨k, by rw [hstage]; rfl, hk⟩
  · rw [hself hroot]
    exact .inl ⟨rfl, rfl⟩

theorem Prolongs.trans (h : d.Prolongs root d') (h' : d'.Prolongs root d'') :
    d.Prolongs root d'' where
  rooted := h'.rooted
  stages hk := h'.stages (h.stages hk)

theorem Prolongs.carries (h : d.Prolongs root d') (hid : d.Carries root cycle id) :
    d'.Carries root cycle id := by
  rcases hid with hid | ⟨k, hcycle, hk⟩
  · exact .inl hid
  · exact .inr ⟨k, hcycle, h.stages hk⟩

/-- Every request leaves the lines in place. -/
theorem Rooted.prolongs_resolve (h : d.Rooted root) (hs : d.netlist.signal? s.id = some s)
    (cycle : Nat) : d.Prolongs root (resolve s cycle d).state := by
  by_cases hroot : (d.netlist.root s).id = root.id
  · refine wp.state ((wp_resolve_exact h hs (h.carries_of_root hs hroot) cycle).mono
      (fun id d' hd' => ?_) fun e d' hd' => ?_)
    · exact ⟨hd'.rooted, hd'.grown.stages_mono⟩
    · cases hd' with
      | early _ _ kept =>
          subst kept
          exact ⟨h, fun hk => hk⟩
      | hindered count _ _ _ grown =>
          subst grown
          exact ⟨h.growBy count, (grownBy_growBy d root count).stages_mono⟩
  · have hother : ∀ d', (∃ count, d.GrownBy (d.netlist.root s) count d') → d.Prolongs root d' := by
      rintro d' ⟨count, hgrown⟩
      refine ⟨h.of_others hroot hgrown, fun hk => ?_⟩
      rwa [Dataflow.stages, hgrown.others _ (Ne.symm hroot)]
    exact wp.state ((wp_resolve_grown d s cycle).mono (fun _ => hother) fun _ => hother)

theorem Rooted.evolves {qs : List Request} (h : d.Rooted root) (hev : d.Evolves qs d') :
    d.Prolongs root d' := by
  induction hev with
  | refl => exact ⟨h, fun hk => hk⟩
  | declare _ decl _ hdriver ih => exact ⟨ih.rooted.add (hdriver _), ih.stages⟩
  | stem _ r stem hempty ih =>
      exact ⟨ih.rooted.setStem hempty stem, fun hk => (stages_setStem r _ stem).symm ▸ ih.stages hk⟩
  | request _ s cycle hs _ ih => exact ih.trans (ih.rooted.prolongs_resolve hs cycle)

/-! ## Two requests for one -/

theorem contains_growBy {k : Nat} (hk : (d.stages root.id).size + count < k) :
    (d.growBy root count).netlist.contains (stageName (d.stem root) k) =
      d.netlist.contains (stageName (d.stem root) k) := by
  rw [Bool.eq_iff_iff, contains_growBy_iff]
  refine or_iff_left ?_
  rintro ⟨k', -, hle, hname⟩
  have hsame := (stageName_injective hname).2
  omega

/-- With the next stages there, what is free is what was free beyond them. -/
theorem GrownBy.unhindered_iff (h : d.GrownBy root count d') {depth : Nat}
    (hfree : d.Unhindered root ((d.stages root.id).size + count)) :
    d'.Unhindered root depth ↔ d.Unhindered root depth := by
  have hname : ∀ k, (d.stages root.id).size + count < k →
      d'.netlist.contains (stageName (d'.stem root) k) =
        d.netlist.contains (stageName (d.stem root) k) := by
    intro k hk
    rw [stem_congr h.stem_eq, h.netlist_eq, contains_growBy hk]
  unfold Unhindered
  rw [h.size_eq]
  constructor
  · intro hall k hlow hhigh
    rcases Nat.lt_or_ge ((d.stages root.id).size + count) k with hdeep | hnear
    · exact hname k hdeep ▸ hall k hdeep hhigh
    · exact hfree k hlow hnear
  · intro hall k hlow hhigh
    exact (hname k hlow).trans (hall k (by omega) hhigh)

/-- A second request is made where the answer to the first one stands. -/
theorem resolveVia_of_ok {s₁ : Signal} {first : Nat} (second : Nat)
    (hok : (resolve s first d).result = .ok id)
    (hs₁ : (resolve s first d).state.netlist.signal? id = some s₁) :
    (resolveVia s first second d).result =
        (resolve s₁ second (resolve s first d).state).result ∧
      (resolveVia s first second d).state =
        (resolve s₁ second (resolve s first d).state).state := by
  have hsecond : (resolveVia s first second).wp
      (fun a t => (resolve s₁ second (resolve s first d).state).result = .ok a ∧
        (resolve s₁ second (resolve s first d).state).state = t)
      (fun e t => (resolve s₁ second (resolve s first d).state).result = .error e ∧
        (resolve s₁ second (resolve s first d).state).state = t) d := by
    unfold resolveVia
    rw [wp_bind]
    refine wp_of_result.mono ?_ ?_
    · rintro id' d' ⟨hok', rfl⟩
      obtain rfl := Except.ok.inj (hok.symm.trans hok')
      rw [wp_bind, wp_get, hs₁]
      exact wp_of_result
    · rintro e d' ⟨herror, -⟩
      rw [hok] at herror
      cases herror
  cases hvia : (resolveVia s first second d).result with
  | ok a =>
      obtain ⟨hresult, hstate⟩ := hsecond.of_ok hvia
      exact ⟨hresult.symm, hstate.symm⟩
  | error e =>
      obtain ⟨hresult, hstate⟩ := hsecond.of_error hvia
      exact ⟨hresult.symm, hstate.symm⟩

/-- Without an answer to the first request there is none to the second. -/
theorem resolveVia_of_error {first second : Nat} {e : Fault}
    (herror : (resolve s first d).result = .error e) :
    (resolveVia s first second d).result = .error e := by
  have hstop : (resolveVia s first second).wp (fun _ _ => False) (fun e' _ => e' = e) d := by
    unfold resolveVia
    rw [wp_bind]
    refine wp_of_result.mono ?_ ?_
    · rintro id d' ⟨hok, -⟩
      rw [herror] at hok
      cases hok
    · rintro e' d' ⟨herror', -⟩
      exact Except.error.inj (herror'.symm.trans herror)
  cases hvia : (resolveVia s first second d).result with
  | ok id => exact (hstop.of_ok hvia).elim
  | error e' => exact congrArg Except.error (hstop.of_error hvia)

/-- The stages that are grown determine who carries the value of `root`. -/
theorem GrownBy.carries_iff (h : d.GrownBy root count d') (h' : d.GrownBy root count d'') :
    d'.Carries root cycle id ↔ d''.Carries root cycle id := by
  rw [Carries, Carries, h.stages_eq, h'.stages_eq]

section Steps

variable {s₁ : Signal} {second : Nat} (h : d.Rooted root)
  (hs : d.netlist.signal? s.id = some s) (hcarries : d.Carries root s.cycle s.id)
  (h₁ : d.Answered root s s₁.cycle s₁.id d') (hs₁ : d'.netlist.signal? s₁.id = some s₁)
  (hle : s₁.cycle ≤ second)
include h hs hcarries h₁ hs₁ hle

/-- The second step needs the names that the one step needs beyond the first. -/
theorem Rooted.second_ok_iff : (∃ id, (resolve s₁ second d').result = .ok id) ↔
    ∃ id, (resolve s second d).result = .ok id := by
  have hrootle := hcarries.le
  have hfirst := h₁.le
  rw [h₁.rooted.ok_iff hs₁ h₁.carries, h.ok_iff hs hcarries, h₁.grown.unhindered_iff]
  · exact and_congr_left fun _ => ⟨fun _ => by omega, fun _ => hle⟩
  · exact fun k hlow hhigh => h₁.free k hlow (by omega)

/-- The second step ends where the one step ends. -/
theorem Rooted.second_eq {id₂ : SignalId} (hsecond : (resolve s₁ second d').result = .ok id₂)
    (hok : (resolve s second d).result = .ok id) :
    id₂ = id ∧ (resolve s₁ second d').state.netlist = (resolve s second d).state.netlist ∧
      ∀ r, (resolve s₁ second d').state.stages r = (resolve s second d).state.stages r := by
  have hrootle := hcarries.le
  have hfirst := h₁.le
  have h₂ := h₁.rooted.answered_of_ok hs₁ h₁.carries hsecond
  have hone := h.answered_of_ok hs hcarries hok
  have htwo := h₁.grown.trans h₂.grown
  have hcount : s₁.cycle - root.cycle - (d.stages root.id).size +
      (second - root.cycle - (d'.stages root.id).size) =
      second - root.cycle - (d.stages root.id).size := by
    rw [h₁.grown.size_eq]
    omega
  rw [hcount] at htwo
  refine ⟨?_, htwo.netlist_eq.trans hone.grown.netlist_eq.symm,
    fun r => (htwo.stages_eq r).trans (hone.grown.stages_eq r).symm⟩
  exact ((htwo.carries_iff hone.grown).mp h₂.carries).unique hone.carries

end Steps

/-- A request that is made in two steps is answered if and only if one that is made in one step
is, by the same signal, and both add the same signals and stages. -/
theorem Rooted.resolveVia_eq (h : d.Rooted root) (hs : d.netlist.signal? s.id = some s)
    (hcarries : d.Carries root s.cycle s.id) {first second : Nat} (hfirst : s.cycle ≤ first)
    (hle : first ≤ second) :
    (∀ id, (resolveVia s first second d).result = .ok id ↔
      (resolve s second d).result = .ok id) ∧
    ∀ id, (resolve s second d).result = .ok id →
      (resolveVia s first second d).state.netlist = (resolve s second d).state.netlist ∧
        ∀ r, (resolveVia s first second d).state.stages r =
          (resolve s second d).state.stages r := by
  cases hresult : (resolve s first d).result with
  | error e =>
      -- a name that is in the way of the first step is in the way of the one step
      have hnot : ∀ id, (resolve s second d).result ≠ .ok id := by
        intro id hok
        obtain ⟨-, hfree⟩ := (h.ok_iff hs hcarries).mp ⟨id, hok⟩
        have hshorter : d.Unhindered root (first - root.cycle) :=
          fun k hlow hhigh => hfree k hlow (by omega)
        obtain ⟨id', hok'⟩ := (h.ok_iff hs hcarries).mpr ⟨hfirst, hshorter⟩
        rw [hresult] at hok'
        cases hok'
      refine ⟨fun id => ?_, fun id hok => absurd hok (hnot id)⟩
      rw [resolveVia_of_error hresult]
      exact ⟨nofun, fun hok => absurd hok (hnot id)⟩
  | ok id₁ =>
      have h₁ := h.answered_of_ok hs hcarries hresult
      obtain ⟨s₁, hs₁, rfl⟩ := h₁.rooted.carries_mem h₁.carries
      obtain ⟨-, rfl⟩ := h₁.rooted.root_eq hs₁ h₁.carries
      obtain ⟨hvia, hstate⟩ := resolveVia_of_ok second hresult hs₁
      have hiff := h.second_ok_iff hs hcarries h₁ hs₁ hle
      rw [hvia, hstate]
      constructor
      · intro id
        constructor
        · intro hsecond
          obtain ⟨id', hok⟩ := hiff.mp ⟨id, hsecond⟩
          rw [hok, (h.second_eq hs hcarries h₁ hs₁ hle hsecond hok).1]
        · intro hok
          obtain ⟨id₂, hsecond⟩ := hiff.mpr ⟨id, hok⟩
          rw [hsecond, (h.second_eq hs hcarries h₁ hs₁ hle hsecond hok).1]
      · intro id hok
        obtain ⟨id₂, hsecond⟩ := hiff.mpr ⟨id, hok⟩
        exact (h.second_eq hs hcarries h₁ hs₁ hle hsecond hok).2

/-! ## All requests -/

theorem Rooted.reaches (h : d.Rooted root) : d.Reaches root (d.stages root.id).size := by
  intro qs d' hev s cycle hs hroot hle hreached
  have hlater := h.evolves hev
  -- what carries the value in `cycle` does so already in `d`
  have hbefore : ∃ id, d.Carries root cycle id := by
    have hrootle := (hlater.rooted.carries_of_root hs hroot).le
    rcases Nat.eq_or_lt_of_le (Nat.le_trans hrootle hle) with hsame | hlt
    · exact ⟨root.id, .inl ⟨hsame.symm, rfl⟩⟩
    · obtain ⟨k, rfl⟩ : ∃ k, cycle = root.cycle + (k + 1) := ⟨cycle - root.cycle - 1, by omega⟩
      exact ⟨_, .inr ⟨k, rfl, Array.getElem?_eq_getElem (by omega)⟩⟩
  obtain ⟨id', hid'⟩ := hbefore
  have hcarries := hlater.carries hid'
  obtain ⟨id, hok, hid, hnetlist, hstages⟩ := hlater.rooted.answered_of_reached hs
    (hlater.rooted.carries_of_root hs hroot) hle (by have := hcarries.le_size; omega)
  exact ⟨id, hok, hid.unique hcarries ▸ hid', hnetlist, hstages⟩

theorem Sound.exact (h : d.Sound) (hs : d.netlist.signal? s.id = some s) (cycle : Nat) :
    d.Exact s cycle := by
  obtain ⟨hrooted, hcarries⟩ := h.rooted hs
  constructor
  · exact hrooted.early_iff hs hcarries
  · intro hlt
    obtain ⟨name, declared, requested, herror⟩ := (hrooted.early_iff hs hcarries).mp hlt
    cases hrooted.refused_of_error hs hcarries herror with
    | early _ _ kept => exact kept
    | hindered count lt => omega
  · rintro rfl
    obtain ⟨id, hok⟩ := (hrooted.ok_iff hs hcarries).mpr
      ⟨Nat.le_refl _, fun k hlow hhigh => absurd hlow (by have := hcarries.le_size; omega)⟩
    obtain ⟨rfl, hkept⟩ := (hrooted.answered_of_ok hs hcarries hok).kept rfl
    exact ⟨hok, hkept⟩
  · intro hlt
    rw [hrooted.ok_iff hs hcarries]
    exact and_iff_right (Nat.le_of_lt hlt)
  · intro hlt id hok
    have hanswered := hrooted.answered_of_ok hs hcarries hok
    obtain ⟨s', hs', rfl⟩ := hanswered.rooted.carries_mem hanswered.carries
    obtain ⟨hroot, hcycle⟩ := hanswered.rooted.root_eq hs' hanswered.carries
    exact ⟨hanswered.grown.gains, s', hs', hcycle, hroot⟩
  · intro hlt e herror
    cases hrooted.refused_of_error hs hcarries herror with
    | early lt => omega
    | hindered count _ short hindered grown =>
        rw [grown]
        refine ⟨count, short, hindered, gains_growBy _ _ count, answers_growBy count, ?_⟩
        have hreaches := (hrooted.growBy count).reaches
        rwa [size_stages_growBy] at hreaches

theorem Sound.composes (h : d.Sound) (hs : d.netlist.signal? s.id = some s) {first second : Nat}
    (hfirst : s.cycle ≤ first) (hle : first ≤ second) : d.Composes s first second := by
  obtain ⟨hrooted, hcarries⟩ := h.rooted hs
  obtain ⟨hresult, hstate⟩ := hrooted.resolveVia_eq hs hcarries hfirst hle
  exact ⟨fun {id} => hresult id, fun {id} hok => (hstate id hok).1,
    fun {id} hok => (hstate id hok).2⟩

end Retime.Dataflow

namespace Retime.Operator

open Dataflow

/-- In every state of an operator, also within a call, a request does exactly what the free names
allow, and it can be made in steps. -/
theorem resolution_is_exact (handle : Handle) (name : String) (period : Float) (pipelined : Bool)
    (script : Script) {qs : List Request} {d : Dataflow}
    (hev : ((blank handle name period pipelined).after script).flow.Evolves qs d)
    {id : SignalId} {s : Signal} (hs : d.netlist.signal? id = some s) :
    s.id = id ∧ (∀ cycle, d.Exact s cycle) ∧
      ∀ first second, s.cycle ≤ first → first ≤ second → d.Composes s first second := by
  have hsound : d.Sound :=
    ((evolves_after (sound_blank handle name period pipelined) script).trans hev).sound sound_empty
  obtain rfl := hsound.lawful.id_eq hs
  exact ⟨rfl, hsound.exact hs, fun first second hfirst hle => hsound.composes hs hfirst hle⟩

/-- The second stage behind `a` has a name that is taken. -/
theorem resolution_around_a_taken_name :
    ∃ d : Dataflow, (d.netlist.signal? 0).map (·.name) = some "a" ∧
      d.netlist.contains "a_d2" = true ∧ ∃ s, d.netlist.signal? 0 = some s ∧
        (∀ cycle, d.Exact s cycle) ∧ d.Composes s 3 7 := by
  let a : Declaration :=
    { name := "a", role := .input, width := .vector 8, cycle := 0, driver := .port }
  let taken : Declaration :=
    { name := "a_d2", role := .internal, width := .vector 8, cycle := 0, driver := .expr "0" }
  let d : Dataflow := { netlist := (Netlist.add {} a).add taken }
  have hfirst : Evolves {} [] { netlist := Netlist.add {} a } :=
    Evolves.refl.declare a (by simp [Netlist.contains]) (by simp [a])
  have hsecond : Evolves {} [] d :=
    hfirst.declare taken (by simp [Netlist.contains, Netlist.add, a, taken]) (by simp [taken])
  have hs : d.netlist.signal? 0 = some ⟨a, 0⟩ := by simp [d, Netlist.signal?, Netlist.add, Netlist.size]
  obtain ⟨-, hexact, hcomposes⟩ := resolution_is_exact 0 "adder" 0 false [] hsecond hs
  refine ⟨d, by rw [hs]; rfl, ?_, ⟨a, 0⟩, hs, hexact, hcomposes 3 7 (by decide) (by decide)⟩
  simp [d, Netlist.contains, Netlist.add, a, taken]

end Retime.Operator
