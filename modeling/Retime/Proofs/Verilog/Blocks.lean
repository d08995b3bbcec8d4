import Retime.Proofs.Verilog.Structure

/-! # Register blocks

Loads are gathered into one block for each clocking. A register that is loaded once is
assigned to in one block only, and there once, or twice if the block has a reset.
-/

namespace Retime.Operator

open Verilog

variable {op : Operator} {loads : List Load} {clocking : Clocking}

/-- What loads assign at a clock edge. -/
def updates (op : Operator) (loads : List Load) : List (String × String) :=
  loads.map fun l => (op.signalName l.target, op.signalName l.source)

/-- What is assigned to the registers while the reset is on, if they have one. -/
def resets (op : Operator) (clocking : Clocking) (loads : List Load) : List (String × String) :=
  if clocking = .registered then []
  else loads.map fun l => (op.signalName l.target,
    (Expr.zero (((op.flow.netlist.signal? l.target).map (·.width.bits)).getD 0)).text)

theorem clocks_registerBlock (hclocking : clocking ≠ .combinational) :
    Item.Clocks clocking (op.resets clocking loads) (op.updates loads)
      (op.registerBlock clocking loads) := by
  have hupdates : loads.map op.update = nonblockings (op.updates loads) := by
    simp only [nonblockings, updates, List.map_map]
    rfl
  have hresets : loads.map op.reset = nonblockings (loads.map fun l =>
      (op.signalName l.target,
        (Expr.zero (((op.flow.netlist.signal? l.target).map (·.width.bits)).getD 0)).text)) := by
    simp only [nonblockings, List.map_map]
    rfl
  cases clocking with
  | combinational => exact absurd rfl hclocking
  | registered =>
      simp only [registerBlock, resets, if_true, hupdates]
      exact .registered _
  | asyncReset =>
      simp only [registerBlock, resets, reduceCtorEq, if_false, hupdates, hresets]
      exact .asyncReset _ _
  | syncReset =>
      simp only [registerBlock, resets, reduceCtorEq, if_false, hupdates, hresets]
      exact .syncReset _ _

/-- A block assigns to what is loaded. -/
theorem mem_targets_registerBlock {name : String} :
    name ∈ (op.registerBlock clocking loads).targets ↔
      ∃ l ∈ loads, op.signalName l.target = name := by
  have hclocks : ∀ {clocking : Clocking}, clocking ≠ .combinational →
      (name ∈ (op.registerBlock clocking loads).targets ↔
        ∃ l ∈ loads, op.signalName l.target = name) := by
    intro clocking hclocking
    rw [(clocks_registerBlock hclocking).targets_eq]
    unfold resets updates
    split <;> simp
  -- loads without a clocking of their own would go to a block of plain registers
  cases clocking with
  | combinational => exact @hclocks .registered (by simp)
  | _ => exact hclocks (by simp)

theorem registerBlocks_eq_nil : op.registerBlocks loads = [] ↔ loads = [] := by
  constructor
  · intro hnil
    apply List.eq_nil_iff_forall_not_mem.mpr
    intro l hl
    have hown : loads.filter (·.clocking = l.clocking) ≠ [] :=
      List.ne_nil_of_mem (List.mem_filter.mpr ⟨hl, by simp⟩)
    have hblock : _ ∈ op.registerBlocks loads := mem_registerBlocks.mpr ⟨l.clocking, hown, rfl⟩
    rw [hnil] at hblock
    cases hblock
  · rintro rfl
    rfl

/-- A name that no load is made to is in no block. -/
theorem filter_registerBlocks_of_nil {name : String}
    (hnone : loads.filter (fun l => op.signalName l.target = name) = []) :
    (op.registerBlocks loads).filter (name ∈ ·.targets) = [] := by
  apply List.filter_eq_nil_iff.mpr
  intro item hitem
  obtain ⟨clocking, -, rfl⟩ := mem_registerBlocks.mp hitem
  simp only [decide_eq_true_eq, mem_targets_registerBlock]
  rintro ⟨l, hl, hname⟩
  have hl' := List.filter_eq_nil_iff.mp hnone l (List.mem_filter.mp hl).1
  exact hl' (by simpa using hname)

/-- A name that one load is made to is in the block of its clocking only. -/
theorem filter_registerBlocks {name : String} {l : Load}
    (hone : loads.filter (fun l => op.signalName l.target = name) = [l]) :
    (op.registerBlocks loads).filter (name ∈ ·.targets) =
      [op.registerBlock l.clocking (loads.filter (·.clocking = l.clocking))] := by
  have hl : l ∈ loads ∧ op.signalName l.target = name := by
    have hmem : l ∈ loads.filter fun l => op.signalName l.target = name := by simp [hone]
    simpa using List.mem_filter.mp hmem
  have hfound : ∀ clocking,
      ((if (loads.filter (·.clocking = clocking)).isEmpty then none
        else some (op.registerBlock clocking (loads.filter (·.clocking = clocking)))).filter
          fun item => name ∈ item.targets) =
        if clocking = l.clocking then
          some (op.registerBlock clocking (loads.filter (·.clocking = clocking)))
        else none := by
    intro clocking
    by_cases hclocking : clocking = l.clocking
    · subst hclocking
      have hown : l ∈ loads.filter (·.clocking = l.clocking) :=
        List.mem_filter.mpr ⟨hl.1, by simp⟩
      have htarget : name ∈
          (op.registerBlock l.clocking (loads.filter (·.clocking = l.clocking))).targets :=
        mem_targets_registerBlock.mpr ⟨l, hown, hl.2⟩
      rw [if_neg fun hempty => List.ne_nil_of_mem hown (List.isEmpty_iff.mp hempty), if_pos rfl]
      simp [Option.filter, htarget]
    · have htarget : name ∉
          (op.registerBlock clocking (loads.filter (·.clocking = clocking))).targets := by
        rw [mem_targets_registerBlock]
        rintro ⟨l', hl', hname⟩
        obtain ⟨hl', hclocking'⟩ := List.mem_filter.mp hl'
        have hsame : l' ∈ loads.filter fun l => op.signalName l.target = name :=
          List.mem_filter.mpr ⟨hl', by simpa using hname⟩
        rw [hone, List.mem_singleton] at hsame
        subst hsame
        exact hclocking (of_decide_eq_true hclocking').symm
      rw [if_neg hclocking]
      split <;> simp [Option.filter, htarget]
  -- of all clockings only that of `l` is left
  unfold registerBlocks
  rw [List.filter_filterMap]
  simp only [hfound]
  cases l.clocking <;> rfl

theorem count_updates {name : String} :
    ((op.updates loads).map (·.1)).count name =
      (loads.filter fun l => op.signalName l.target = name).length := by
  rw [updates, List.map_map, List.count_eq_length_filter, List.filter_map, List.length_map]
  rfl

theorem count_resets {name : String} :
    ((op.resets clocking loads).map (·.1)).count name =
      if clocking = .registered then 0
      else (loads.filter fun l => op.signalName l.target = name).length := by
  unfold resets
  split
  · rfl
  · rw [List.map_map, List.count_eq_length_filter, List.filter_map, List.length_map]
    rfl

end Retime.Operator
