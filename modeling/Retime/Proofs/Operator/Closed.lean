import Retime.Proofs.Operator.Faults
import Retime.Proofs.Operator.Schedule

/-! # Closed operators

The call that finishes an operator closes it for good: from then on every call is refused
before it looks at anything, so nothing about the operator changes. An open operator never
refuses a call for being closed.
-/

namespace Retime

theorem Fault.OfCall.ne_operatorClosed {e : Fault} (h : e.OfCall) (name : String) :
    e ≠ .operatorClosed name := by
  rcases h with hdescription | _
  · cases hdescription with
    | signals hsignals => cases hsignals <;> exact nofun
    | _ => exact nofun
  · exact nofun

namespace Operator

open Retime.Action

variable {op : Operator} {lib : Library} {c : Call}

theorem step_of_closed (h : op.isFinished = true) (entry : Library × Call) : op.step entry = op :=
  (perform_of_closed h).2

theorem after_of_closed (h : op.isFinished = true) (script : Script) : op.after script = op := by
  induction script with
  | nil => rfl
  | cons entry script ih => rw [after_cons, step_of_closed h, ih]

/-- What a call on an open operator fails with is not that the operator is closed. -/
theorem fault_ne_closed_of_open (h : op.isFinished = false) {failure : Failure}
    (hfailure : (perform lib c op).result = .error failure) (name : String) :
    failure.fault ≠ .operatorClosed name :=
  ((faults_execute lib c op).of_error (execute_of_failed h hfailure)).ne_operatorClosed name

/-! ## When operators are closed -/

/-- The step that closes an operator is a call that finishes it, and succeeds. -/
theorem finishes_of_step (hopen : op.isFinished = false)
    (hclosed : (op.step (lib, c)).isFinished = true) : c = .finish ∧ op.Succeeds (lib, c) := by
  have hc : c = .finish := by
    by_contra hne
    have hsame : (op.step (lib, c)).isFinished = op.isFinished := by
      rw [isFinished, schedule_step hne, isFinished]
    rw [hsame, hopen] at hclosed
    cases hclosed
  refine ⟨hc, ?_⟩
  cases hresult : (perform lib c op).result with
  | ok answer => exact ⟨answer, hresult⟩
  | error failure =>
      have hsame := (wp_execute_sameEntries lib c op).of_error (execute_of_failed hopen hresult)
      rw [← (perform_of_open hopen).2] at hsame
      rw [isFinished, show op.step (lib, c) = (perform lib c op).state from rfl, hsame.schedule,
        ← isFinished, hopen] at hclosed
      cases hclosed

/-- A script that closes an open operator does so by one call: the calls before it leave the
operator open, and those after it leave it as it is. -/
theorem finishes_of_after {script : Script} (hopen : op.isFinished = false)
    (hclosed : (op.after script).isFinished = true) :
    ∃ before lib rest, script = before ++ (lib, .finish) :: rest ∧
      (op.after before).isFinished = false ∧ (op.after before).Succeeds (lib, .finish) ∧
      op.after script = (op.after before).step (lib, .finish) := by
  induction script generalizing op with
  | nil =>
      rw [after_nil, hopen] at hclosed
      cases hclosed
  | cons entry script ih =>
      obtain ⟨lib, c⟩ := entry
      cases hstep : (op.step (lib, c)).isFinished with
      | false =>
          obtain ⟨before, lib', rest, rfl, hbefore, hsucceeds, hsame⟩ := ih hstep hclosed
          exact ⟨(lib, c) :: before, lib', rest, rfl, hbefore, hsucceeds, hsame⟩
      | true =>
          obtain ⟨rfl, hsucceeds⟩ := finishes_of_step hopen hstep
          exact ⟨[], lib, script, rfl, hopen, hsucceeds, after_of_closed hstep script⟩

/-- An operator that is open after a script was open all along. -/
theorem open_of_after {script script' : Script} (h : (op.after (script ++ script')).isFinished = false) :
    (op.after script).isFinished = false := by
  by_contra hclosed
  rw [Bool.not_eq_false] at hclosed
  rw [after_append, after_of_closed hclosed, hclosed] at h
  cases h

/-- Every call of the script is refused in silence, whatever it asks for. -/
def RefusesAll (op : Operator) (script : Script) : Prop :=
  ∀ done lib c rest, script = done ++ (lib, c) :: rest → perform lib c (op.after done) =
    { result := .error ⟨op.name, c.text, .operatorClosed op.name⟩, state := op, events := [] }

/-- No call of the script is refused because the operator is closed. -/
def RefusesNone (op : Operator) (script : Script) : Prop :=
  ∀ done lib c rest, script = done ++ (lib, c) :: rest → ∀ failure name,
    (perform lib c (op.after done)).result = .error failure → failure.fault ≠ .operatorClosed name

theorem refusesAll_of_closed (h : op.isFinished = true) (script : Script) :
    op.RefusesAll script := by
  intro done lib c rest _
  rw [after_of_closed h, perform_eq_of_closed h]

theorem refusesNone_of_open {script : Script} (h : (op.after script).isFinished = false)
    (entry : Library × Call) : op.RefusesNone (script ++ [entry]) := by
  intro done lib c rest hsplit failure name hfailure
  -- the call stands after a part of the script that leaves the operator open
  obtain ⟨rest', hscript⟩ : ∃ rest', script = done ++ rest' := by
    have hlength := congrArg List.length hsplit
    simp only [List.length_append, List.length_cons, List.length_nil] at hlength
    have hdone : done <+: script := List.prefix_of_prefix_length_le
      ⟨(lib, c) :: rest, hsplit.symm⟩ (List.prefix_append script [entry]) (by omega)
    exact ⟨hdone.choose, hdone.choose_spec.symm⟩
  rw [hscript] at h
  exact fault_ne_closed_of_open (open_of_after h) hfailure name

/-- A finished operator is frozen: all of it stays as the call that finished it left it, and
every later call is refused because the operator is closed, whatever else is wrong with it.
Until that call, no call was refused for that reason. -/
theorem finished_operators_are_frozen {handle : Handle} {name : String} {period : Float}
    {pipelined : Bool} {script : Script}
    (hfinished : ((blank handle name period pipelined).after script).isFinished = true)
    (later : Script) :
    let start := blank handle name period pipelined
    let op := start.after script
    op.after later = op ∧ op.RefusesAll later ∧ op.name = name ∧
      ∃ before lib rest, script = before ++ (lib, .finish) :: rest ∧
        (start.after before).Succeeds (lib, .finish) ∧
        op = (start.after before).step (lib, .finish) ∧
        start.RefusesNone (before ++ [(lib, .finish)]) := by
  intro start op
  have hblank : start.isFinished = false := rfl
  obtain ⟨before, lib, rest, hscript, hopen, hsucceeds, hsame⟩ := finishes_of_after hblank hfinished
  refine ⟨after_of_closed hfinished later, refusesAll_of_closed hfinished later,
    (identity_after start script).2, before, lib, rest, hscript, hsucceeds, hsame, ?_⟩
  exact refusesNone_of_open hopen (lib, .finish)

/-- An operator without ports is finished, and then refuses to be finished again and to read
a signal that it does not have. -/
theorem finished_blank_is_frozen :
    let lib : Library := .ofSettings { pipelined := false }
    let start := blank 0 "empty" 4 false
    let later := [(lib, .finish), (lib, .consume "missing")]
    (start.after [(lib, .finish)]).isFinished = true ∧
      (start.after [(lib, .finish)]).after later = start.after [(lib, .finish)] ∧
      (start.after [(lib, .finish)]).RefusesAll later := by
  intro lib start later
  have hfinished : (start.after [(lib, .finish)]).isFinished = true := rfl
  obtain ⟨hsame, hrefuses, -⟩ := finished_operators_are_frozen hfinished later
  exact ⟨hfinished, hsame, hrefuses⟩

end Operator

end Retime
