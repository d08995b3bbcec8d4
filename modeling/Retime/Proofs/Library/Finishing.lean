import Retime.Proofs.Library.Builds

/-! # Describing and finishing

A new operator is built by describing it, finishing it and committing it. In a lawful library,
and under a free name, nothing but the first two steps can fail.
-/

namespace Retime

open Retime.Action

namespace Library

variable {lib : Library} {name : String} {op : Operator} {h : Handle}
  {describe : Action Failure Site Unit}

/-- Describes an operator and finishes it. -/
def finishing (describe : Action Failure Site Unit) : Action Failure Site Unit := do
  describe
  let _ ← Site.perform .finish

theorem builds_finishing {describe : Action Failure Site Unit} (hdescribe : Builds describe) :
    Builds (finishing describe) :=
  .bind hdescribe fun _ => .bind (.call .finish) fun _ => .pure _

/-- Other operators are generated first. -/
theorem wp_finishing_generate {body : Design} {next : Handle → Design} {Q : Unit → Site → Prop}
    {E : Failure → Site → Prop} {s : Site} :
    (finishing (run (.generate name body next))).wp Q E s ↔
      (Site.onLibrary (obtain name (run body))).wp
        (fun h => (finishing (run (next h))).wp Q E) E s := by
  unfold finishing
  rw [run, wp_bind, wp_bind]
  exact Iff.of_eq (congrArg (fun Q => (Site.onLibrary (obtain name (run body))).wp Q E s)
    (funext fun h => funext fun s => (propext wp_bind).symm))

/-- What was built was described, finished and committed. -/
theorem ok_of_build (hok : (build name describe lib).result = .ok h) :
    ∃ op lib₁, lib.Reserves name op lib₁ ∧
      (finishing describe ⟨lib₁, op⟩).result = .ok () ∧
      (finishing describe ⟨lib₁, op⟩).state.library.Commits
        (finishing describe ⟨lib₁, op⟩).state.operator h (build name describe lib).state := by
  refine (wp_build (Q := fun h lib₂ => ∃ op lib₁, lib.Reserves name op lib₁ ∧
      (finishing describe ⟨lib₁, op⟩).result = .ok () ∧
      (finishing describe ⟨lib₁, op⟩).state.library.Commits
        (finishing describe ⟨lib₁, op⟩).state.operator h lib₂) (E := fun _ _ => True)
    (fun _ _ => trivial) fun op lib₁ hres => ?_).of_ok hok
  refine wp_of_result.mono ?_ fun _ _ _ => trivial
  rintro _ s ⟨hdone, rfl⟩
  exact ⟨fun _ _ => trivial, fun h lib₂ hcom => ⟨op, lib₁, hres, hdone, hcom⟩⟩

/-- An operator that is finished under a free name is found where it was committed. -/
theorem wp_build_of_finishing {describe : Action Failure Site Unit} {Q : Operator → Prop}
    {E : Failure → Prop} (hlib : lib.Lawful) (hfree : lib.lookup name = none)
    (hdescribe : Builds describe)
    (hdone : ∀ op lib₁, lib.Reserves name op lib₁ →
      (finishing describe).wp (fun _ s => s.operator.isFinished = true ∧ Q s.operator)
        (fun e _ => E e) ⟨lib₁, op⟩) :
    (build name describe).wp (fun h lib₂ => ∃ op, lib₂.operator? h = some op ∧ Q op)
      (fun e _ => E e) lib := by
  refine wp_build (fun e htaken => ?_) fun op lib₁ hres => ?_
  · have hcontains : lib.index.contains name = false := by simpa [lookup] using hfree
    simp [create, hcontains] at htaken
  refine ((hdone op lib₁ hres).and ((builds_finishing hdescribe).leaves invariant_lawful _
    (hres.lawful hlib) trivial)).mono ?_ fun _ _ he => he.1
  rintro _ s ⟨⟨hfinished, hQ⟩, hs⟩
  have hawaits : s.library.Awaits s.operator := by
    rw [Awaits, hs.handle, hs.name]
    exact hs.extend _ _ hres.awaits
  refine ⟨fun e hrefused => ?_, fun h lib₂ hcom => ⟨s.operator, ?_, hQ⟩⟩
  · obtain ⟨_, hcommit⟩ := commit_of_awaits hawaits hfinished
    rw [hcommit] at hrefused
    cases hrefused
  · rw [hcom.operator?, if_pos hcom.handle.symm]

/-! ## New libraries -/

section Empty

variable {settings : Settings} {device : Device}

theorem lookup_empty (settings : Settings) (device : Device) (name : String) :
    ({ settings, device } : Library).lookup name = none := by
  simp [lookup]

theorem obtain_of_absent (h : lib.find? name = none) :
    obtain name describe lib = build name describe lib := by
  simp [obtain, bind, Action.bind, Action.get, h]

theorem generate_empty (kind : Kind) : generate kind { settings, device } =
    build kind.name (run (kind.design device)) { settings, device } :=
  obtain_of_absent (find?_eq_none.mpr fun h hlookup => by
    rw [lookup_empty] at hlookup
    cases hlookup)

end Empty

/-- An operator that is still to be committed is none of those that are found. -/
theorem ne_of_awaits {op' : Operator} (hawaits : lib.Awaits op) (hop : lib.operator? h = some op') :
    h ≠ op.handle := by
  rintro rfl
  rw [operator?_of_awaits hawaits] at hop
  cases hop

end Library

end Retime
