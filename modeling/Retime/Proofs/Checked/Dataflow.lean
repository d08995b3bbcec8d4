import Retime.Proofs.Checked.Engine
import Retime.Proofs.Dataflow.Resolve

/-! # Checked dataflow

On sound delay lines a request for a cycle that can be counted is answered without a slip.
A stage stands in the line of its root, so the root is in the table and is not valid later
than the signal; and once the line was lengthened it is as long as the way from the root to
the cycle, where the answer is read.
-/

namespace Retime.Checked

open Retime.Action Dataflow

variable {d : Dataflow} {s : Signal} {cycle : Nat}

/-- A name leads to an entry of the table. -/
theorem lookup_eq {n : Netlist} (h : n.Lawful) (name : String) :
    lookup n name = (n.find name).mapError .error := by
  unfold lookup Netlist.find
  cases hid : n.index[name]? with
  | none => rfl
  | some id =>
      obtain ⟨s, hs, -⟩ := h.index_iff.mp hid
      have hentry : entry n.signals id = .ok s := entry_eq_ok.mpr hs
      simp only [hentry, Option.bind_some, hs]
      rfl

/-- The head of a line is the root of the signals in it. -/
theorem head_eq (h : d.Sound) (hs : d.netlist.signal? s.id = some s) :
    head s = (d.netlist.root s).id := by
  unfold head Netlist.root
  cases hdriver : s.driver with
  | stage r depth =>
      obtain ⟨k, -, hk⟩ := h.place hs hdriver
      obtain ⟨root, hroot, -⟩ := h.stage hk
      simp [hroot, h.lawful.id_eq hroot]
  | _ => rfl

theorem agrees_addStages {root : Signal} {count depth : Nat}
    (h : ∀ k, depth ≤ k → k < depth + count → root.cycle + k ≤ maxCycle) (stem : String)
    (d : Dataflow) :
    Agrees (addStages root stem count depth) (Dataflow.addStages root stem count depth) d := by
  induction count generalizing depth d with
  | zero => exact agrees_pure () d
  | succ count ih =>
      have hfirst : root.cycle + depth ≤ maxCycle := h depth (Nat.le_refl _) (by omega)
      refine agrees_check (plus_of_le hfirst) ((agrees_halting _ _).andThen fun _ d' => ?_)
      exact ih (fun k hk hlt => h k (by omega) (by omega)) d'

theorem agrees_resolve (h : d.Sound) (hs : d.netlist.signal? s.id = some s)
    (hrole : s.role ≠ .output) (hcycle : cycle ≤ maxCycle) :
    Agrees (resolve s.id cycle) (Dataflow.resolve s cycle) d := by
  obtain ⟨hroot, hnone, hcarries⟩ := h.root_spec hs
  have hle := hcarries.le
  refine agrees_look (agrees_check (entry_eq_ok.mpr hs) ?_)
  refine Agrees.ite (fun _ => agrees_stop _ _) fun hge => ?_
  refine Agrees.ite (fun _ => agrees_pure _ _) fun hne => ?_
  have hlt : s.cycle < cycle := by omega
  refine agrees_get ?_
  dsimp only
  rw [head_eq h hs]
  cases (d.line (d.netlist.root s).id).answers[cycle]? with
  | some id => exact agrees_pure _ _
  | none =>
      refine agrees_check (entry_eq_ok.mpr hroot) (agrees_check (minus_of_le (by omega)) ?_)
      -- the stages that are missing are those up to the cycle that is asked for
      have hstages : ∀ k, (d.stages (d.netlist.root s).id).size + 1 ≤ k →
          k < (d.stages (d.netlist.root s).id).size + 1 +
            (cycle - (d.netlist.root s).cycle - (d.stages (d.netlist.root s).id).size) →
          (d.netlist.root s).cycle + k ≤ maxCycle := by
        intro k hk hk'
        omega
      refine (agrees_addStages hstages _ d).bind ?_
      refine (wp_addStages h hroot hnone (h.root_role hs hrole) _).mono ?_ fun _ _ _ => trivial
      rintro - d' ⟨hgrown, hsize⟩
      have hplace : cycle - (d.netlist.root s).cycle - 1 <
          (d'.stages (d.netlist.root s).id).size := by omega
      have hanswer : entry (d'.stages (d.netlist.root s).id) (cycle - (d.netlist.root s).cycle - 1)
          = .ok ((d'.stages (d.netlist.root s).id).getD (cycle - (d.netlist.root s).cycle - 1)
            s.id) := by
        rw [entry_eq_ok, Array.getElem?_eq_getElem hplace]
        simp [Array.getD, hplace]
      refine agrees_get (agrees_check (minus_of_le (by omega)) (agrees_check hanswer ?_))
      exact (agrees_modify _ _).andThen fun _ _ => agrees_pure _ _

/-- A signal that is not in the table cannot be asked for. -/
example : (resolve 0 1 {}).result = .error (.slip (.index 0 0)) := rfl

/-- Answers are remembered for roots that are in the table. -/
theorem chain?_eq (h : d.Sound) (root : SignalId) (cycle : Nat) :
    chain? d root cycle = .ok (d.chain? root cycle) := by
  unfold chain? Dataflow.chain?
  cases hanswer : (d.line root).answers[cycle]? with
  | none => rfl
  | some id =>
      obtain ⟨s, -, hs, -⟩ := h.answer hanswer
      have hentry : entry d.netlist.signals root = .ok s := entry_eq_ok.mpr hs
      simp [hentry, hs, bind, Except.bind, pure, Except.pure]

end Retime.Checked
