import Retime.Proofs.Operator.Effect

/-! # What stays in an operator

Signals are declared by calls, by delay lines, by the outputs of instances and by outputs that
are realigned, and a call may fail between two of them. What it leaves behind then is further
signals only: those that were there keep their places, so an id and a name each stand for one
signal forever.
-/

namespace Retime

theorem Netlist.Extends.isPrefix {n n' : Netlist} (h : n.Extends n') :
    n.signals.toList <+: n'.signals.toList := by
  rw [List.prefix_iff_getElem?]
  intro i hi
  rw [Array.getElem?_toList]
  apply h i
  rw [Netlist.signal?, ← Array.getElem?_toList]
  exact List.getElem?_eq_getElem hi

namespace Operator

open Dataflow

variable {op : Operator}

/-- A step keeps the operator sound and extends its dataflow, and so does a script. -/
theorem Sound.extends_after (hop : op.Sound) (script : Script) :
    (op.after script).Sound ∧ op.flow.Extends (op.after script).flow := by
  induction script generalizing op with
  | nil => exact ⟨hop, .refl _⟩
  | cons entry script ih =>
      obtain ⟨hstep, hevolves⟩ := evolves_step hop entry
      obtain ⟨hafter, hext⟩ := ih hstep
      exact ⟨hafter, (hevolves.extends hop.flow).trans hext⟩

/-- After every script, be its calls successful or not, the ids of the signals are their
positions, their names are distinct, and the index leads from each name to its signal and from
no other name anywhere. Whatever is called later, these signals are the first ones, as they
were, and every name that is found now is found to be the same signal. -/
theorem signals_stay (handle : Handle) (name : String) (period : Float) (pipelined : Bool)
    (script later : Script) :
    let op := (blank handle name period pipelined).after script
    let n := op.flow.netlist
    let n' := (op.after later).flow.netlist
    (∀ (i : Nat) (s : Signal), n.signals[i]? = some s → s.id = i) ∧
      (n.signals.toList.map (·.name)).Nodup ∧
      (∀ (name : String) (id : SignalId), n.index[name]? = some id ↔
        ∃ s, n.signals[id]? = some s ∧ s.name = name) ∧
      (∀ (name : String) (s : Signal), n.find name = .ok s ↔
        s ∈ n.signals.toList ∧ s.name = name) ∧
      n.signals.toList <+: n'.signals.toList ∧
      ∀ (name : String) (s : Signal), n.find name = .ok s → n'.find name = .ok s := by
  intro op n n'
  have hop : op.Sound := ((sound_blank handle name period pipelined).extends_after script).1
  obtain ⟨hop', hext⟩ := hop.extends_after later
  have hn : n.Lawful := hop.flow.lawful
  refine ⟨fun i s => hn.id_eq, hn.nodup_names, fun _ _ => hn.index_iff, fun name s => ?_,
    hext.netlist.isPrefix, fun name s => hext.find hop.flow hop'.flow⟩
  rw [hn.find_ok, hn.mem_signals]

end Operator

end Retime
