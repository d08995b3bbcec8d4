import Retime.Proofs.Library.Builds
import Retime.Proofs.Operator.Conservation

/-! # The operators of a library

Whatever was done to a library, as long as the operators that were committed were made by calls,
every operator in it was made by calls, those that were built in it included. Hence each keeps a
record of what was described, and its schedule accounts for all that is in it.
-/

namespace Retime

/-- The operator was made by calls on a new one. -/
def Operator.Scripted (op : Operator) : Prop :=
  ∃ handle name period pipelined script, op = (blank handle name period pipelined).after script

theorem Operator.Scripted.step {op : Operator} (h : op.Scripted) (entry : Library × Call) :
    (op.step entry).Scripted := by
  obtain ⟨handle, name, period, pipelined, script, rfl⟩ := h
  refine ⟨handle, name, period, pipelined, script ++ [entry], ?_⟩
  rw [after_append, after_cons, after_nil]

namespace Library

variable {lib : Library}

/-- An act keeps an invariant, as long as an operator that is committed satisfies it. -/
theorem Invariant.act {R : Library → Prop} {Q : Library → Operator → Prop} (hinv : Invariant R Q)
    (hR : R lib) {a : Act} (ha : ∀ op, a = .commit op → Q lib op) : R (lib.act a) := by
  cases a with
  | create name =>
      dsimp only [Library.act]
      split
      next op lib' hcreate => exact (hinv.reserve hR (reserves_of_create hcreate)).1
      · exact hR
  | commit op =>
      dsimp only [Library.act]
      split
      next h lib' hcommit => exact hinv.commit hR (ha op rfl) (commits_of_commit hcommit)
      · exact hR
  | generate name describe hdescribe =>
      exact (hinv.wp_obtain name (hdescribe.leaves hinv) hR).state.2

/-- What is committed was made by calls, if this holds of all that is committed from elsewhere. -/
theorem invariant_scripted :
    Invariant (fun lib => ∀ {h op}, lib.operator? h = some op → op.Scripted)
      fun _ op => op.Scripted where
  reserve {lib name op lib'} hlib hres := by
    refine ⟨fun hop => ?_, ?_⟩
    · rw [hres.operator?] at hop
      exact hlib hop
    · rw [hres.operator]
      exact ⟨_, _, _, _, [], rfl⟩
  extend hop _ := hop
  step c _ hop := hop.step _
  commit {lib op h lib'} hlib hop hcom {h' op'} hop' := by
    rw [hcom.operator?] at hop'
    split at hop'
    · obtain rfl := Option.some.inj hop'
      exact hop
    · exact hlib hop'

theorem scripted_after (hlib : ∀ {h op}, lib.operator? h = some op → op.Scripted) {acts : List Act}
    (hacts : ∀ op, .commit op ∈ acts → op.Scripted) {h : Handle} {op : Operator}
    (hop : (lib.after acts).operator? h = some op) : op.Scripted := by
  induction acts generalizing lib with
  | nil => exact hlib hop
  | cons a acts ih =>
      refine ih (invariant_scripted.act hlib ?_) (fun op hop => ?_) hop
      · rintro op rfl
        exact hacts op List.mem_cons_self
      · exact hacts op (List.mem_cons_of_mem _ hop)

/-- Every operator in a library that was empty was made by calls. -/
theorem scripted_of_operator? {settings : Settings} {device : Device} {acts : List Act}
    (hacts : ∀ op, .commit op ∈ acts → op.Scripted) {h : Handle} {op : Operator}
    (hop : (({ settings, device } : Library).after acts).operator? h = some op) : op.Scripted :=
  scripted_after (fun hop => by simp [operator?] at hop) hacts hop

/-- The laws hold, and all operators in the library have a record of what was described. -/
structure Recorded (lib : Library) : Prop extends lib.Lawful where
  operator : ∀ {h op}, lib.operator? h = some op → op.Sound ∧ op.Recorded

theorem recorded_after (settings : Settings) (device : Device) {acts : List Act}
    (hacts : ∀ op, .commit op ∈ acts → op.Scripted) :
    (({ settings, device } : Library).after acts).Recorded where
  toLawful := ((lawful_empty settings device).after acts).1
  operator hop := by
    obtain ⟨handle, name, period, pipelined, script, rfl⟩ := scripted_of_operator? hacts hop
    exact (Operator.recorded_blank ..).after (Operator.sound_blank ..) script

end Library

end Retime
