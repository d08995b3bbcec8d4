import Retime.Proofs.Library.Builds

/-! # Pieces of designs

What a piece of a design does is said by a triple: where a statement holds of the operator that
is described, the piece answers and leaves an operator of which another one holds, or it stops
with a fault of a given kind. Triples are put together as designs are.
-/

namespace Retime

open Retime.Action Library

namespace Operator

variable {op : Operator} {lib : Library} {c : Call}

/-- An open operator executes a call, and attributes what fails to it. -/
theorem wp_perform_of_open (hopen : op.schedule = none) {Q : Option String → Operator → Prop}
    {E : Failure → Operator → Prop} :
    (perform lib c).wp Q E op ↔
      (execute lib c).wp Q (fun e => E ⟨op.name, c.text, e⟩) op := by
  have hfinished : op.isFinished = false := by simp [isFinished, hopen]
  unfold perform
  rw [wp_bind, wp_get, wp_mapError, wp_dispatch]
  simp [hfinished]

end Operator

namespace Build

variable {α β : Type} {lib : Library} {h : Handle} {E : Fault → Prop} {P P' : Operator → Prop}

/-- From an operator at `h` with `P`, the piece leads to some answer `a` and an operator with
`Q a`, or to a fault in `E`. -/
def Triple (lib : Library) (h : Handle) (E : Fault → Prop) (P : Operator → Prop) (m : Build α)
    (Q : α → Operator → Prop) : Prop :=
  ∀ (next : α → Design) (R : Unit → Site → Prop),
    (∀ a op, op.handle = h → Q a op →
      (run (next a)).wp R (fun e _ => E e.fault) ⟨lib, op⟩) →
    ∀ op, op.handle = h → P op → (run (m next)).wp R (fun e _ => E e.fault) ⟨lib, op⟩

variable {m : Build α} {Q : α → Operator → Prop}

/-! ## Rules -/

theorem triple_pure (a : α) : Triple lib h E (Q a) (pure a) Q :=
  fun _ _ hnext op hop hQ => hnext a op hop hQ

theorem Triple.bind {f : α → Build β} {R : β → Operator → Prop} (hm : Triple lib h E P m Q)
    (hf : ∀ a, Triple lib h E (Q a) (f a) R) : Triple lib h E P (m >>= f) R :=
  fun next S hnext => hm (fun a => f a next) S fun a => hf a next S hnext

theorem Triple.conseq {Q' : α → Operator → Prop} (hm : Triple lib h E P m Q)
    (hP : ∀ op, P' op → P op) (hQ : ∀ a op, Q a op → Q' a op) : Triple lib h E P' m Q' :=
  fun next S hnext op hop hP' =>
    hm next S (fun a op' hop' hQa => hnext a op' hop' (hQ a op' hQa)) op hop (hP op hP')

theorem triple_exists {ι : Type} {P : ι → Operator → Prop}
    (hm : ∀ i, Triple lib h E (P i) m Q) : Triple lib h E (fun op => ∃ i, P i op) m Q :=
  fun next S hnext op hop ⟨i, hP⟩ => hm i next S hnext op hop hP

theorem triple_and {F : Prop} (hm : F → Triple lib h E P m Q) :
    Triple lib h E (fun op => F ∧ P op) m Q :=
  fun next S hnext op hop ⟨hF, hP⟩ => hm hF next S hnext op hop hP

/-- A call, by what its execution does. -/
theorem wp_run_call {c : Call} {next : Option String → Design} {R : Unit → Site → Prop}
    {Q : Option String → Operator → Prop} {op : Operator} (hopen : op.schedule = none)
    (hcall : (Operator.execute lib c).wp Q (fun e _ => E e) op)
    (hnext : ∀ answer op', op'.handle = op.handle → Q answer op' →
      (run (next answer)).wp R (fun e _ => E e.fault) ⟨lib, op'⟩) :
    (run (.call c next)).wp R (fun e _ => E e.fault) ⟨lib, op⟩ := by
  have hperform : (Operator.perform lib c).wp Q (fun e _ => E e.fault) op :=
    (Operator.wp_perform_of_open hopen).mpr hcall
  rw [run, wp_bind]
  unfold Site.perform
  rw [wp_bind, wp_get, wp_zoom]
  refine (hperform.and wp_of_result).mono ?_ fun _ _ hop' => hop'.1
  rintro answer _ ⟨hQ, -, rfl⟩
  exact hnext answer _ (op.identity_step (lib, c)).1 hQ

theorem triple_call {c : Call} {Q : Operator → Prop}
    (hc : ∀ op, op.handle = h → P op → op.schedule = none ∧
      (Operator.execute lib c).wp (fun _ => Q) (fun e _ => E e) op) :
    Triple lib h E P (call c) fun _ => Q := by
  intro next R hnext op hop hP
  obtain ⟨hopen, hcall⟩ := hc op hop hP
  exact wp_run_call hopen hcall fun _ op' hop' => hnext () op' (hop'.trans hop)

theorem triple_ask {c : Call} {Q : Operator → Prop}
    (hc : ∀ op, op.handle = h → P op → op.schedule = none ∧
      (Operator.execute lib c).wp (fun _ => Q) (fun e _ => E e) op) :
    Triple lib h E P (ask c) fun _ => Q := by
  intro next R hnext op hop hP
  obtain ⟨hopen, hcall⟩ := hc op hop hP
  exact wp_run_call hopen hcall fun answer op' hop' => hnext (answer.getD "") op' (hop'.trans hop)

/-- A question, by the action that answers it. -/
theorem triple_answer {c : Call} {m : Action Fault Operator String} {Q : String → Operator → Prop}
    (hm : Operator.execute lib c = some <$> m)
    (hc : ∀ op, op.handle = h → P op → op.schedule = none ∧ m.wp Q (fun e _ => E e) op) :
    Triple lib h E P (ask c) Q := by
  intro next R hnext op hop hP
  obtain ⟨hopen, hanswer⟩ := hc op hop hP
  have hcall : (Operator.execute lib c).wp (fun answer op' => ∃ a, answer = some a ∧ Q a op')
      (fun e _ => E e) op := by
    rw [hm, wp_map]
    exact hanswer.mono (fun a _ hQ => ⟨a, rfl, hQ⟩) fun _ _ he => he
  refine wp_run_call hopen hcall ?_
  rintro _ op' hop' ⟨a, rfl, hQ⟩
  exact hnext a op' (hop'.trans hop) hQ

/-! ## Lists of items -/

/-- A statement about the items that were done, which every item extends. -/
theorem triple_forEach {f : α → Build β} (I : List α → Operator → Prop) {items : List α}
    (hstep : ∀ done a rest, done ++ a :: rest = items →
      Triple lib h E (I done) (f a) fun _ => I (done ++ [a])) :
    Triple lib h E (I []) (forEach f items) fun _ => I items := by
  suffices hrest : ∀ rest done, done ++ rest = items →
      Triple lib h E (I done) (forEach f rest) fun _ => I items from hrest items [] rfl
  intro rest
  induction rest with
  | nil =>
      intro done hdone
      obtain rfl : done = items := by simpa using hdone
      exact triple_pure _
  | cons a rest ih =>
      intro done hdone
      refine (hstep done a rest hdone).bind fun _ => ?_
      exact (ih (done ++ [a]) (by simpa using hdone)).bind fun _ => triple_pure _

/-- What every item keeps. -/
theorem triple_forEach_keep {f : α → Build β} {items : List α}
    (hstep : ∀ a ∈ items, Triple lib h E P (f a) fun _ => P) :
    Triple lib h E P (forEach f items) fun _ => P :=
  triple_forEach (fun _ => P) fun _ a _ hitems => hstep a (by simp [← hitems])

/-- A statement about the number of items that were done. -/
theorem triple_range {f : Nat → Build β} (I : Nat → Operator → Prop) {n : Nat}
    (hstep : ∀ i < n, Triple lib h E (I i) (f i) fun _ => I (i + 1)) :
    Triple lib h E (I 0) (forEach f (List.range n)) fun _ => I n := by
  have hitems : Triple lib h E (I 0) (forEach f (List.range n)) fun _ => I (List.range n).length := by
    refine triple_forEach (fun done => I done.length) fun done i rest hrange => ?_
    have hplace : (List.range n)[done.length]? = some i := by simp [← hrange]
    obtain ⟨hlt, hi⟩ := List.getElem?_eq_some_iff.mp hplace
    rw [List.getElem_range] at hi
    rw [List.length_range] at hlt
    rw [List.length_append, List.length_singleton]
    exact hi ▸ hstep done.length hlt
  rwa [List.length_range] at hitems

/-! ## Whole designs -/

theorem Triple.wp_run {m : Build Unit} {Q : Operator → Prop}
    (hm : Triple lib h E P m fun _ => Q) {op : Operator} (hop : op.handle = h) (hP : P op) :
    (run m.design).wp (fun _ s => s.library = lib ∧ s.operator.handle = h ∧ Q s.operator)
      (fun e _ => E e.fault) ⟨lib, op⟩ :=
  hm (fun _ => .done) _ (fun _ _ hop' hQ => wp_pure.mpr ⟨rfl, hop', hQ⟩) op hop hP

end Build

end Retime
