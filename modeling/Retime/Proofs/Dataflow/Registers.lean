import Mathlib
import Retime.Proofs.Dataflow.Sound

/-! # The registers of a dataflow

What lists and counts stages, in terms of the line of each root: the requests that are
remembered, the stages that a value passes on its way, and the number of registers.
-/

namespace Retime.Dataflow

variable {d : Dataflow}

theorem mem_requests {r : SignalId} {cycle : Nat} :
    (r, cycle) ∈ d.requests ↔ cycle ∈ (d.line r).answers := by
  simp only [requests, List.mem_flatMap, List.mem_map, Prod.mk.injEq, Prod.exists,
    Std.TreeMap.mem_toList_iff_getElem?_eq_some, Std.TreeMap.mem_keys]
  constructor
  · rintro ⟨r', l, hl, cycle', hcycle, rfl, rfl⟩
    rw [line, Std.TreeMap.getD_eq_getD_getElem?, hl]
    exact hcycle
  · intro hcycle
    cases hl : d.lines[r]? with
    | none =>
        rw [line, Std.TreeMap.getD_eq_getD_getElem?, hl] at hcycle
        simp at hcycle
    | some l =>
        rw [line, Std.TreeMap.getD_eq_getD_getElem?, hl] at hcycle
        exact ⟨r, l, hl, cycle, hcycle, rfl, rfl⟩

/-- The way to a cycle that is remembered leads through as many stages as the cycle is later
than the root; no other way is known. -/
theorem Sound.chain?_eq (h : d.Sound) {r : SignalId} {root : Signal}
    (hroot : d.netlist.signal? r = some root) (cycle : Nat) :
    d.chain? r cycle =
      if (r, cycle) ∈ d.requests then some ((d.stages r).take (cycle - root.cycle))
      else none := by
  unfold chain?
  simp only [mem_requests, Std.TreeMap.mem_iff_isSome_getElem?]
  cases hanswer : (d.line r).answers[cycle]? with
  | none => rfl
  | some id =>
      obtain ⟨root', k, hroot', hcycle, hk⟩ := h.answer hanswer
      obtain rfl : root = root' := Option.some.inj (hroot.symm.trans hroot')
      have hsize := (Array.getElem?_eq_some_iff.mp hk).1
      have hway : root.cycle ≤ cycle ∧ cycle - root.cycle ≤ (d.stages r).size := by omega
      simp only [hroot, Option.bind_eq_bind, Option.bind_some, if_pos hway, Option.isSome_some,
        if_true]

/-- Every register stands in the line of one signal. -/
theorem Sound.registerCount_eq (h : d.Sound) :
    d.registerCount = (d.netlist.signals.toList.map fun s => (d.stages s.id).size).sum := by
  have hlines : d.registerCount =
      (d.lines.keys.map fun r => (d.stages r).size).sum := by
    have hsum : d.registerCount = (d.lines.toList.map fun entry => entry.2.stages.size).sum := by
      rw [List.sum_eq_foldr, List.foldr_map]
      rfl
    rw [hsum, ← Std.TreeMap.map_fst_toList_eq_keys, List.map_map]
    refine congrArg List.sum (List.map_congr_left ?_)
    rintro ⟨r, l⟩ hl
    rw [Std.TreeMap.mem_toList_iff_getElem?_eq_some] at hl
    simp only [Function.comp_apply, stages, line, Std.TreeMap.getD_eq_getD_getElem?, hl,
      Option.getD_some]
  have hsignals : (d.netlist.signals.toList.map fun s => (d.stages s.id).size) =
      (List.range d.netlist.size).map fun r => (d.stages r).size := by
    rw [← h.lawful.map_id, List.map_map]
    rfl
  rw [hlines, hsignals, ← List.sum_toFinset _ Std.TreeMap.nodup_keys,
    ← List.sum_toFinset _ List.nodup_range]
  -- lines of no register and signals without a line do not count
  refine Finset.sum_congr_of_eq_on_inter ?_ ?_ fun _ _ _ => rfl
  · intro r _ hr
    rw [List.mem_toFinset, List.mem_range, Nat.not_lt] at hr
    rw [h.stages_of_none (Netlist.signal?_eq_none hr)]
    rfl
  · intro r _ hr
    rw [List.mem_toFinset, Std.TreeMap.mem_keys] at hr
    rw [stages, line, Std.TreeMap.getD_eq_fallback hr]
    rfl

/-- No stage stands twice behind one signal. -/
theorem Sound.nodup_stages (h : d.Sound) (r : SignalId) : (d.stages r).toList.Nodup := by
  rw [List.nodup_iff_injective_getElem]
  rintro ⟨i, hi⟩ ⟨j, hj⟩ hij
  have hi' : (d.stages r)[i]? = some (d.stages r)[i] := Array.getElem?_eq_getElem hi
  have hj' : (d.stages r)[j]? = some (d.stages r)[j] := Array.getElem?_eq_getElem hj
  have hsame : (d.stages r)[i] = (d.stages r)[j] := hij
  rw [← hsame] at hj'
  exact Fin.ext (h.place_unique hi' hj').2

/-- The lines of all signals hold the stages of the table. -/
theorem Sound.stages_perm (h : d.Sound) :
    (d.netlist.signals.toList.flatMap fun s => (d.stages s.id).toList).Perm
      ((d.netlist.signals.toList.filter (·.isStage)).map (·.id)) := by
  rw [List.perm_ext_iff_of_nodup]
  · intro id
    simp only [List.mem_flatMap, List.mem_map, List.mem_filter, h.lawful.mem_signals,
      Array.mem_toList_iff, Array.mem_iff_getElem?]
    constructor
    · rintro ⟨r, -, k, hk⟩
      obtain ⟨root, -, -, -, hs⟩ := h.stage hk
      exact ⟨⟨_, id⟩, ⟨hs, rfl⟩, rfl⟩
    · rintro ⟨s, ⟨hs, hstage⟩, rfl⟩
      unfold Signal.isStage at hstage
      split at hstage
      next r depth hdriver =>
        obtain ⟨k, -, hk⟩ := h.place hs hdriver
        obtain ⟨root, hroot, -, -, -⟩ := h.stage hk
        obtain rfl := h.lawful.id_eq hroot
        exact ⟨root, hroot, k, hk⟩
      · cases hstage
  · rw [List.nodup_flatMap]
    refine ⟨fun s _ => h.nodup_stages s.id, ?_⟩
    refine h.lawful.nodup_signals.pairwise_of_forall_ne fun s hs s' hs' hne id hid hid' => ?_
    obtain ⟨k, hk⟩ := Array.mem_iff_getElem?.mp (Array.mem_toList_iff.mp hid)
    obtain ⟨k', hk'⟩ := Array.mem_iff_getElem?.mp (Array.mem_toList_iff.mp hid')
    have hsame := (h.place_unique hk hk').1
    rw [h.lawful.mem_signals] at hs hs'
    rw [hsame, hs'] at hs
    exact hne (Option.some.inj hs).symm
  · refine (List.filter_sublist.map _).nodup ?_
    rw [h.lawful.map_id]
    exact List.nodup_range

/-- The registers that are counted line by line are the stages of the table. -/
theorem Sound.registerCount_eq_length (h : d.Sound) :
    d.registerCount = (d.netlist.signals.toList.filter (·.isStage)).length := by
  have hlength := h.stages_perm.length_eq
  rw [List.length_flatMap, List.length_map] at hlength
  exact h.registerCount_eq.trans hlength

theorem Sound.registerCount_pos (h : d.Sound) :
    0 < d.registerCount ↔ ∃ s, d.netlist.signal? s.id = some s ∧ s.isStage = true := by
  rw [h.registerCount_eq_length, List.length_pos_iff_exists_mem]
  simp only [List.mem_filter, h.lawful.mem_signals]

end Retime.Dataflow
