import Retime.Dataflow
import Retime.Proofs.Action

/-! # The pieces of dataflow

What the operations on delay lines and the declaration of a signal do, and what the
alignment of a value can stop with.
-/

namespace Retime.Dataflow

open Retime.Action

variable {d : Dataflow}

/-! ## Delay lines -/

@[simp] theorem netlist_setLine (root : SignalId) (l : DelayLine) :
    (d.setLine root l).netlist = d.netlist :=
  rfl

theorem line_setLine (root root' : SignalId) (l : DelayLine) :
    (d.setLine root l).line root' = if root = root' then l else d.line root' := by
  unfold line setLine
  by_cases h : root = root' <;> simp [Std.TreeMap.getD_insert, h]

@[simp] theorem line_setLine_self (root : SignalId) (l : DelayLine) :
    (d.setLine root l).line root = l := by
  rw [line_setLine, if_pos rfl]

theorem stages_setLine (root root' : SignalId) (l : DelayLine) :
    (d.setLine root l).stages root' = if root = root' then l.stages else d.stages root' := by
  unfold stages
  rw [line_setLine]
  split <;> rfl

@[simp] theorem netlist_setStem (root : SignalId) (stem : String) :
    (d.setStem root stem).netlist = d.netlist :=
  rfl

@[simp] theorem stages_setStem (root root' : SignalId) (stem : String) :
    (d.setStem root stem).stages root' = d.stages root' := by
  unfold setStem
  rw [stages_setLine]
  split
  next h => rw [← h]; rfl
  · rfl

@[simp] theorem answers_setStem (root root' : SignalId) (stem : String) :
    ((d.setStem root stem).line root').answers = (d.line root').answers := by
  unfold setStem
  rw [line_setLine]
  split
  next h => rw [h]
  · rfl

/-- What the stages of a root are named after. -/
def stem (d : Dataflow) (root : Signal) : String :=
  (d.line root.id).stem.getD root.name

/-- The declaration of the stage at `depth` behind `root`. -/
def stageOf (root : Signal) (stem : String) (depth : Nat) : Declaration where
  name := stageName stem depth
  role := .internal
  clocking := root.clocking.stage
  width := root.width
  cycle := root.cycle + depth
  driver := .stage root.id depth

theorem stem_congr {d d' : Dataflow} {root : Signal}
    (h : (d'.line root.id).stem = (d.line root.id).stem) : d'.stem root = d.stem root := by
  unfold stem
  rw [h]

/-- The dataflow with one more stage behind `root`. -/
def grow (d : Dataflow) (root : Signal) : Dataflow :=
  let decl := stageOf root (d.stem root) ((d.stages root.id).size + 1)
  { d with netlist := d.netlist.add decl }.setLine root.id
    { d.line root.id with stages := (d.stages root.id).push d.netlist.size }

@[simp] theorem stages_grow_self (root : Signal) :
    (d.grow root).stages root.id = (d.stages root.id).push d.netlist.size := by
  unfold grow
  rw [stages_setLine, if_pos rfl]

theorem line_grow_of_ne {root : Signal} {r : SignalId} (h : r ≠ root.id) :
    (d.grow root).line r = d.line r := by
  unfold grow
  rw [line_setLine, if_neg (Ne.symm h)]
  rfl

@[simp] theorem stem_line_grow (root : Signal) (r : SignalId) :
    ((d.grow root).line r).stem = (d.line r).stem := by
  unfold grow
  rw [line_setLine]
  split
  next h => rw [h]
  · rfl

@[simp] theorem answers_grow (root : Signal) (r : SignalId) :
    ((d.grow root).line r).answers = (d.line r).answers := by
  unfold grow
  rw [line_setLine]
  split
  next h => rw [h]
  · rfl

/-! ## Declarations -/

@[simp] theorem wp_declare {decl : Declaration} {Q : SignalId → Dataflow → Prop}
    {E : Fault → Dataflow → Prop} :
    (declare decl).wp Q E d ↔
      (d.netlist.contains decl.name = true → E (.duplicateSignal decl.name) d) ∧
        (d.netlist.contains decl.name = false →
          Q d.netlist.size { d with netlist := d.netlist.add decl }) := by
  unfold declare wp
  by_cases h : d.netlist.contains decl.name = true <;> simp [h]

/-- The next stage behind `root` is appended, unless its name is taken. -/
theorem wp_addStage {root : Signal} {Q : Unit → Dataflow → Prop} {E : Fault → Dataflow → Prop} :
    (addStage root (d.stem root) ((d.stages root.id).size + 1)).wp Q E d ↔
      (d.netlist.contains (stageName (d.stem root) ((d.stages root.id).size + 1)) = true →
          E (.duplicateSignal (stageName (d.stem root) ((d.stages root.id).size + 1))) d) ∧
        (d.netlist.contains (stageName (d.stem root) ((d.stages root.id).size + 1)) = false →
          Q () (d.grow root)) := by
  simp only [addStage, wp_bind, wp_declare, wp_report, wp_modify]
  rfl

/-! ## Faults -/

/-- The faults of a declaration and of a reference: a name is taken, or a value is used
too early. -/
inductive OfSignals : Fault → Prop where
  | duplicateSignal (name : String) : OfSignals (.duplicateSignal name)
  | backwardReference (name : String) (declared requested : Nat) :
      OfSignals (.backwardReference name declared requested)

theorem faults_declare (decl : Declaration) : (declare decl).Faults OfSignals :=
  fun _ => wp_declare.mpr ⟨fun _ => .duplicateSignal _, fun _ => trivial⟩

theorem faults_addStages (root : Signal) (stem : String) (count depth : Nat) :
    (addStages root stem count depth).Faults OfSignals := by
  induction count generalizing depth with
  | zero => exact faults_pure _
  | succ count ih =>
      refine faults_bind (faults_bind (faults_declare _) fun id => ?_) fun _ => ih _
      exact faults_bind (faults_report _) fun _ => faults_modify _

theorem faults_resolve (s : Signal) (cycle : Nat) : (resolve s cycle).Faults OfSignals := by
  unfold resolve
  split
  · exact faults_stop (.backwardReference _ _ _)
  · split
    · exact faults_pure _
    · apply faults_bind faults_get
      intro d
      dsimp only
      split
      · exact faults_pure _
      · refine faults_bind (faults_addStages _ _ _ _) fun _ => faults_bind faults_get fun d' => ?_
        exact faults_bind (faults_modify _) fun _ => faults_pure _

end Retime.Dataflow
