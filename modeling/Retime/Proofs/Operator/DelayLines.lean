import Retime.Proofs.Dataflow.Demand
import Retime.Proofs.Operator.Requests

/-! # The delay lines of operators

What holds of the lines of an operator after every script, whether its calls succeed or
fail, and what its requests alone determine.
-/

namespace Retime.Operator

open Dataflow

/-- The lines of every operator are sound, and they hold no more than the requests need.

Stages are named, typed and clocked after their root, stand in one place each and have no
stages of their own; what is remembered for a cycle is the stage that is valid then. If no
request fails, a line is as long as the latest request for its root or one of its stages
needs, and runs of two operators that ask the same of their signals agree on the names of
the stages, on the answers and on the number of registers. -/
theorem delay_lines_of_requests (handle : Handle) (name : String) (period : Float)
    (pipelined : Bool) (script : Script) :
    let start := blank handle name period pipelined
    let d := (start.after script).flow
    let qs := start.requests script
    (∀ (r : SignalId) (k : Nat) (id : SignalId), (d.stages r)[k]? = some id →
      ∃ root, d.netlist.signal? r = some root ∧ root.isStage = false ∧
        d.netlist.signal? id = some
          { name := stageName (d.stem root) (k + 1)
            role := .internal
            clocking := root.clocking.stage
            width := root.width
            cycle := root.cycle + (k + 1)
            driver := .stage r (k + 1)
            id }) ∧
      (∀ (s : Signal) (r : SignalId) (depth : Nat), d.netlist.signal? s.id = some s →
        s.driver = .stage r depth →
          ∃! place : SignalId × Nat, (d.stages place.1)[place.2]? = some s.id) ∧
      (∀ s : Signal, d.netlist.signal? s.id = some s → s.isStage = true → d.stages s.id = #[]) ∧
      (∀ (r id : SignalId) (cycle : Nat), (d.line r).answers[cycle]? = some id →
        ∃ root, d.netlist.signal? r = some root ∧ root.cycle < cycle ∧
          (d.stages r)[cycle - root.cycle - 1]? = some id) ∧
      (∀ (r : SignalId) (root : Signal) (cycle : Nat), d.netlist.signal? r = some root →
        d.chain? r cycle = if (r, cycle) ∈ d.requests
          then some ((d.stages r).take (cycle - root.cycle)) else none) ∧
      ((∀ q ∈ qs, ¬ q.Fails) →
        (∀ r : SignalId, (∀ q ∈ qs, q.root.id = r → q.gap ≤ (d.stages r).size) ∧
          ((d.stages r).size = 0 ∨ ∃ q ∈ qs, q.root.id = r ∧ (d.stages r).size = q.gap)) ∧
        (∀ (r : SignalId) (cycle : Nat), (r, cycle) ∈ d.requests ↔
          ∃ q ∈ qs, q.root.id = r ∧ q.cycle = cycle ∧ q.signal.cycle < cycle) ∧
        ∀ (handle' : Handle) (name' : String) (period' : Float) (pipelined' : Bool)
          (script' : Script),
          let start' := blank handle' name' period' pipelined'
          let d' := (start'.after script').flow
          let qs' := start'.requests script'
          (∀ q ∈ qs', ¬ q.Fails) →
            (∀ root root' : Signal, SameDemand qs d root qs' d' root' →
              (d.stages root.id).toList.map d.netlist.name =
                  (d'.stages root'.id).toList.map d'.netlist.name ∧
                ∀ q ∈ qs, ∀ q' ∈ qs', q.root.id = root.id → q'.root.id = root'.id →
                  q.cycle = q'.cycle → ∃ id id', q.outcome.result = .ok id ∧
                    q'.outcome.result = .ok id' ∧ d.netlist.name id = d'.netlist.name id') ∧
            (Covers qs d qs' d' → Covers qs' d' qs d → d.registerCount = d'.registerCount)) := by
  intro start d qs
  have hevolves : ({} : Dataflow).Evolves qs d :=
    evolves_after (sound_blank handle name period pipelined) script
  have hd : d.Sound := hevolves.sound sound_empty
  refine ⟨?_, ?_, ?_, ?_, ?_, ?_⟩
  · intro r k id hk
    obtain ⟨root, hroot, hnone, -, hs⟩ := hd.stage hk
    obtain rfl := hd.lawful.id_eq hroot
    exact ⟨root, hroot, hnone, hs⟩
  · intro s r depth hs hdriver
    obtain ⟨k, -, hk⟩ := hd.place hs hdriver
    refine ⟨(r, k), hk, ?_⟩
    rintro ⟨r', k'⟩ hk'
    obtain ⟨rfl, rfl⟩ := hd.place_unique hk hk'
    rfl
  · exact fun s => hd.stages_of_isStage
  · intro r id cycle hanswer
    obtain ⟨root, k, hroot, rfl, hk⟩ := hd.answer hanswer
    refine ⟨root, hroot, by omega, ?_⟩
    rwa [Nat.add_sub_cancel_left, Nat.add_sub_cancel]
  · exact fun r root cycle hroot => hd.chain?_eq hroot cycle
  · intro hok
    have hserved := hevolves.served hok
    refine ⟨fun r => ⟨?_, ?_⟩, fun r cycle => ?_, ?_⟩
    · rintro q hq rfl
      exact hserved.gap_le hq
    · exact (hserved.short r).imp_left fun hempty => by simp [hempty]
    · rw [mem_requests, hserved.mem_answers]
    · intro handle' name' period' pipelined' script' start' d' qs' hok'
      have hevolves' : ({} : Dataflow).Evolves qs' d' :=
        evolves_after (sound_blank handle' name' period' pipelined') script'
      have hd' := hevolves'.sound sound_empty
      have hserved' := hevolves'.served hok'
      refine ⟨fun root root' hsame => ⟨?_, ?_⟩, ?_⟩
      · exact hsame.stages_eq hd hd' hserved hserved'
      · intro q hq q' hq' hid hid' hcycle
        exact hsame.answer_eq hd hd' hserved hserved' hq hq' hid hid' hcycle
      · exact registerCount_eq_of_covers hd hd' hserved hserved'

end Retime.Operator
