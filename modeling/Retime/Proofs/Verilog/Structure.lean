import Retime.Proofs.Netlist
import Retime.Verilog.OfOperator

/-! # The structure of modules

What stands in a module, below comments or not: its nets, its assignments, its copies of
other modules and its blocks. For the module of an operator these are the nets of the
operator and the parts of its schedule.
-/

namespace Retime

namespace Verilog

/-! ## Items -/

mutual

/-- The items that are no comments. -/
def Item.leaves : Item → List Item
  | .commented _ items => Item.leavesOf items
  | item => [item]

def Item.leavesOf : List Item → List Item
  | [] => []
  | item :: items => item.leaves ++ Item.leavesOf items

end

theorem Item.leavesOf_eq (items : List Item) : Item.leavesOf items = items.flatMap Item.leaves := by
  induction items with
  | nil => rfl
  | cons item items ih => rw [Item.leavesOf, List.flatMap_cons, ih]

mutual

/-- The targets of the assignments in a statement, in all branches. -/
def Statement.targets : Statement → List String
  | .nonblocking target _ => [target]
  | .conditional _ yes no => Statement.targetsOf yes ++ Statement.targetsOf no

def Statement.targetsOf : List Statement → List String
  | [] => []
  | s :: ss => s.targets ++ Statement.targetsOf ss

end

/-- Assignments at an event, each a target with a value. -/
def nonblockings (assignments : List (String × String)) : List Statement :=
  assignments.map fun (target, value) => .nonblocking target value

theorem targetsOf_nonblockings (assignments : List (String × String)) :
    Statement.targetsOf (nonblockings assignments) = assignments.map (·.1) := by
  induction assignments with
  | nil => rfl
  | cons a assignments ih =>
      rw [List.map_cons, ← ih]
      rfl

namespace Item

def netDeclarations : Item → List NetDeclaration
  | .nets declarations => declarations
  | _ => []

def assignments : Item → List Assign
  | .assigns assignments => assignments
  | _ => []

def copies : Item → List Copy
  | .copy c => [c]
  | _ => []

/-- An item that is a block, if it is one. -/
def blocks : Item → List Item
  | .always event body => [.always event body]
  | _ => []

/-- What a block assigns to. -/
def targets : Item → List String
  | .always _ body => Statement.targetsOf body
  | _ => []

/-- Blocks of registers: the updates happen at every clock edge, and where there is a reset,
the assignments `resets` take their place while it is on. -/
inductive Clocks : Clocking → List (String × String) → List (String × String) → Item → Prop where
  | registered (updates : List (String × String)) :
      Clocks .registered [] updates (.always "always @(posedge clk)" (nonblockings updates))
  | asyncReset (resets updates : List (String × String)) :
      Clocks .asyncReset resets updates (.always "always @(posedge clk or posedge rst)"
        [.conditional "rst" (nonblockings resets) (nonblockings updates)])
  | syncReset (resets updates : List (String × String)) :
      Clocks .syncReset resets updates (.always "always @(posedge clk)"
        [.conditional "rst" (nonblockings resets) (nonblockings updates)])

theorem Clocks.targets_eq {clocking : Clocking} {resets updates : List (String × String)}
    {block : Item} (h : Clocks clocking resets updates block) :
    block.targets = resets.map (·.1) ++ updates.map (·.1) := by
  cases h with
  | registered => exact targetsOf_nonblockings updates
  | _ =>
      rw [← targetsOf_nonblockings, ← targetsOf_nonblockings]
      exact List.append_nil _

end Item

/-! ## Modules -/

namespace Module

def leaves (m : Module) : List Item :=
  Item.leavesOf m.items

def netDeclarations (m : Module) : List NetDeclaration :=
  m.leaves.flatMap (·.netDeclarations)

def assignments (m : Module) : List Assign :=
  m.leaves.flatMap (·.assignments)

def copies (m : Module) : List Copy :=
  m.leaves.flatMap (·.copies)

def blocks (m : Module) : List Item :=
  m.leaves.flatMap (·.blocks)

/-- The names of all ports and nets. -/
def declared (m : Module) : List String :=
  m.ports.map (·.name) ++ m.netDeclarations.map (·.name)

/-- All ports and nets, by name and width. -/
def widths (m : Module) : List (String × Nat) :=
  m.ports.map (fun p => (p.name, p.width)) ++ m.netDeclarations.map fun n => (n.name, n.width)

theorem map_fst_widths (m : Module) : m.widths.map (·.1) = m.declared := by
  simp [widths, declared, Function.comp_def]

end Module

end Verilog

/-! ## The module of an operator -/

namespace Operator

open Verilog

variable (op : Operator) (schedule : Schedule)

variable {op schedule} in
theorem toModule_of_schedule (hschedule : op.schedule = some schedule) :
    op.toModule = .ok (op.moduleOf schedule) := by
  simp only [toModule, hschedule]

/-- The items of a cycle, without the comment above them. -/
def sliceItems (slice : Slice) : List Item :=
  (if slice.assignments.isEmpty then [] else [Item.assigns (slice.assignments.map op.assign)])
    ++ (slice.instances.filterMap (op.instances[·]?)).map fun inst => Item.copy (op.copy inst)

theorem leavesOf_slices (slices : List Slice) :
    Item.leavesOf (slices.filterMap op.sliceItem?) = slices.flatMap op.sliceItems := by
  have hleaves : ∀ slice, Item.leavesOf (op.sliceItems slice) = op.sliceItems slice := by
    intro slice
    have hleaf : ∀ item ∈ op.sliceItems slice, item.leaves = [item] := by
      intro item hitem
      rcases List.mem_append.mp hitem with hassigns | hcopies
      · split at hassigns
        · cases hassigns
        · obtain rfl := List.mem_singleton.mp hassigns
          rfl
      · obtain ⟨inst, -, rfl⟩ := List.mem_map.mp hcopies
        rfl
    rw [Item.leavesOf_eq, List.flatMap_congr hleaf, List.flatMap_singleton']
  induction slices with
  | nil => rfl
  | cons slice slices ih =>
      rw [List.flatMap_cons, ← ih, List.filterMap_cons]
      have hitem : op.sliceItem? slice = if (op.sliceItems slice).isEmpty then none
          else some (.commented s!"cycle {slice.cycle}" (op.sliceItems slice)) := rfl
      rw [hitem]
      -- a cycle in which nothing happens has no item and no leaves
      split
      next hnone =>
        split at hnone
        next hempty => rw [List.isEmpty_iff.mp hempty, List.nil_append]
        · cases hnone
      next item hsome =>
        split at hsome
        · cases hsome
        · cases hsome
          rw [Item.leavesOf, Item.leaves, hleaves]

variable {op} in
/-- There is a block for every clocking that some load has. -/
theorem mem_registerBlocks {loads : List Load} {item : Item} :
    item ∈ op.registerBlocks loads ↔ ∃ clocking,
      loads.filter (·.clocking = clocking) ≠ [] ∧
        item = op.registerBlock clocking (loads.filter (·.clocking = clocking)) := by
  have hitem : ∀ clocking, (if (loads.filter (·.clocking = clocking)).isEmpty then none
      else some (op.registerBlock clocking (loads.filter (·.clocking = clocking)))) = some item ↔
        loads.filter (·.clocking = clocking) ≠ [] ∧
          item = op.registerBlock clocking (loads.filter (·.clocking = clocking)) := by
    intro clocking
    rw [Option.ite_none_left_eq_some, List.isEmpty_iff, Option.some.injEq, eq_comm (a := item)]
  refine List.mem_filterMap.trans ⟨?_, ?_⟩
  · rintro ⟨clocking, -, h⟩
    exact ⟨clocking, (hitem clocking).mp h⟩
  · rintro ⟨clocking, h⟩
    refine ⟨clocking, ?_, (hitem clocking).mpr h⟩
    cases clocking <;> simp

theorem leavesOf_registerBlocks (loads : List Load) :
    Item.leavesOf (op.registerBlocks loads) = op.registerBlocks loads := by
  have hleaf : ∀ item ∈ op.registerBlocks loads, item.leaves = [item] := by
    intro item hitem
    obtain ⟨clocking, -, rfl⟩ := mem_registerBlocks.mp hitem
    cases clocking <;> rfl
  rw [Item.leavesOf_eq, List.flatMap_congr hleaf, List.flatMap_singleton']

theorem leaves_moduleOf : (op.moduleOf schedule).leaves =
    (if op.netDeclarations.isEmpty then [] else [.nets op.netDeclarations])
      ++ schedule.slices.flatMap op.sliceItems ++ op.registerBlocks schedule.loads := by
  unfold Module.leaves moduleOf
  rw [Item.leavesOf_eq, List.flatMap_append, List.flatMap_append, ← Item.leavesOf_eq,
    ← Item.leavesOf_eq, ← Item.leavesOf_eq, leavesOf_slices, leavesOf_registerBlocks]
  split <;> rfl

/-- What is found in the items of a module is found in its nets, its cycles and its blocks. -/
theorem flatMap_leaves {β : Type} (f : Item → List β) (hnil : f (.nets []) = []) :
    (op.moduleOf schedule).leaves.flatMap f = f (.nets op.netDeclarations)
      ++ schedule.slices.flatMap (fun slice => (op.sliceItems slice).flatMap f)
      ++ (op.registerBlocks schedule.loads).flatMap f := by
  rw [leaves_moduleOf, List.flatMap_append, List.flatMap_append, List.flatMap_assoc]
  split
  next hempty => rw [List.isEmpty_iff.mp hempty, hnil, List.flatMap_nil]
  next => rw [List.flatMap_singleton]

/-- What is found in the items of a cycle is found in its assignments and instances. -/
theorem flatMap_sliceItems {β : Type} (f : Item → List β) (hnil : f (.assigns []) = [])
    (slice : Slice) : (op.sliceItems slice).flatMap f =
      f (.assigns (slice.assignments.map op.assign))
        ++ (slice.instances.filterMap (op.instances[·]?)).flatMap
          fun inst => f (.copy (op.copy inst)) := by
  unfold sliceItems
  rw [List.flatMap_append, List.flatMap_map]
  split
  next hempty => rw [List.isEmpty_iff.mp hempty, List.map_nil, hnil, List.flatMap_nil]
  next => rw [List.flatMap_singleton]

theorem flatMap_registerBlocks {β : Type} (f : Item → List β)
    (hnone : ∀ event body, f (.always event body) = []) (loads : List Load) :
    (op.registerBlocks loads).flatMap f = [] := by
  apply List.flatMap_eq_nil_iff.mpr
  intro item hitem
  obtain ⟨clocking, -, rfl⟩ := mem_registerBlocks.mp hitem
  cases clocking <;> exact hnone _ _

theorem netDeclarations_moduleOf :
    (op.moduleOf schedule).netDeclarations = op.netDeclarations := by
  unfold Module.netDeclarations
  rw [flatMap_leaves _ _ _ rfl, flatMap_registerBlocks _ _ fun _ _ => rfl]
  simp [flatMap_sliceItems, Item.netDeclarations]

theorem assignments_moduleOf :
    (op.moduleOf schedule).assignments = schedule.assignments.map op.assign := by
  unfold Module.assignments
  rw [flatMap_leaves _ _ _ rfl, flatMap_registerBlocks _ _ fun _ _ => rfl]
  have hnone : ∀ insts : List Instance, insts.flatMap (fun _ => ([] : List Assign)) = [] :=
    fun insts => List.flatMap_eq_nil_iff.mpr fun _ _ => rfl
  simp [flatMap_sliceItems, Item.assignments, Schedule.assignments, List.map_flatMap, hnone]

theorem copies_moduleOf : (op.moduleOf schedule).copies =
    ((schedule.slices.flatMap (·.instances)).filterMap (op.instances[·]?)).map op.copy := by
  unfold Module.copies
  rw [flatMap_leaves _ _ _ rfl, flatMap_registerBlocks _ _ fun _ _ => rfl]
  rw [List.filterMap_flatMap, List.map_flatMap]
  simp [flatMap_sliceItems, Item.copies, List.map_eq_flatMap]

theorem blocks_moduleOf :
    (op.moduleOf schedule).blocks = op.registerBlocks schedule.loads := by
  have hblock : ∀ item ∈ op.registerBlocks schedule.loads, item.blocks = [item] := by
    intro item hitem
    obtain ⟨clocking, -, rfl⟩ := mem_registerBlocks.mp hitem
    cases clocking <;> rfl
  unfold Module.blocks
  rw [flatMap_leaves _ _ _ rfl, List.flatMap_congr hblock, List.flatMap_singleton']
  simp [flatMap_sliceItems, Item.blocks]

end Operator

end Retime
